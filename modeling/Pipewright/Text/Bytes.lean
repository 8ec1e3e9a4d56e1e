set_option autoImplicit false

namespace Pipewright.Text

def byteSize : List Char → Nat
  | [] => 0
  | c :: cs => c.utf8Size + byteSize cs

@[simp] theorem byteSize_nil : byteSize [] = 0 := rfl

@[simp] theorem byteSize_cons (c : Char) (cs : List Char) :
    byteSize (c :: cs) = c.utf8Size + byteSize cs := rfl

@[simp] theorem byteSize_append (cs ds : List Char) :
    byteSize (cs ++ ds) = byteSize cs + byteSize ds := by
  induction cs with
  | nil => simp
  | cons c cs ih => simp [ih, Nat.add_assoc]

theorem byteSize_eq_zero {cs : List Char} : byteSize cs = 0 ↔ cs = [] := by
  cases cs with
  | nil => simp
  | cons c cs =>
      have := c.utf8Size_pos
      simp only [byteSize_cons, reduceCtorEq, iff_false]
      omega

theorem byteSize_eq_utf8ByteSize (cs : List Char) :
    byteSize cs = (String.ofList cs).utf8ByteSize := by
  induction cs with
  | nil => simp
  | cons c cs ih =>
      have split : String.ofList (c :: cs) = String.singleton c ++ String.ofList cs := by
        simp
      rw [split, String.utf8ByteSize_append, String.utf8ByteSize_singleton, byteSize_cons, ih]

@[simp] theorem byteSize_toList (text : String) : byteSize text.toList = text.utf8ByteSize := by
  rw [byteSize_eq_utf8ByteSize, String.ofList_toList]

def dropBytes : List Char → Nat → List Char
  | [], _ => []
  | c :: cs, n => if n = 0 then c :: cs else dropBytes cs (n - c.utf8Size)

def takeBytes : List Char → Nat → List Char
  | [], _ => []
  | c :: cs, n => if n = 0 then [] else c :: takeBytes cs (n - c.utf8Size)

theorem dropBytes_zero (cs : List Char) : dropBytes cs 0 = cs := by
  cases cs <;> simp [dropBytes]

theorem takeBytes_zero (cs : List Char) : takeBytes cs 0 = [] := by
  cases cs <;> simp [takeBytes]

@[simp] theorem dropBytes_append (cs ds : List Char) : dropBytes (cs ++ ds) (byteSize cs) = ds := by
  induction cs with
  | nil => exact dropBytes_zero ds
  | cons c cs ih =>
      have := c.utf8Size_pos
      simp only [List.cons_append, dropBytes, byteSize_cons, Nat.add_sub_cancel_left, ih]
      split
      · omega
      · rfl

@[simp] theorem takeBytes_append (cs ds : List Char) : takeBytes (cs ++ ds) (byteSize cs) = cs := by
  induction cs with
  | nil => exact takeBytes_zero ds
  | cons c cs ih =>
      have := c.utf8Size_pos
      simp only [List.cons_append, takeBytes, byteSize_cons, Nat.add_sub_cancel_left, ih]
      split
      · omega
      · rfl

def slice (cs : List Char) (start stop : Nat) : List Char :=
  takeBytes (dropBytes cs start) (stop - start)

@[simp] theorem slice_append (before cs after : List Char) :
    slice (before ++ (cs ++ after)) (byteSize before) (byteSize before + byteSize cs) = cs := by
  simp [slice]

end Pipewright.Text
