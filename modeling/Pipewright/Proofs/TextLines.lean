import Mathlib.Data.List.TakeWhile
import Pipewright.Text.Lines

set_option autoImplicit false

namespace Pipewright.Text

def bytes (cs : List Char) : List UInt8 :=
  cs.flatMap String.utf8EncodeChar

@[simp] theorem bytes_nil : bytes [] = [] := rfl

@[simp] theorem bytes_cons (c : Char) (cs : List Char) :
    bytes (c :: cs) = String.utf8EncodeChar c ++ bytes cs := rfl

@[simp] theorem bytes_append (cs ds : List Char) : bytes (cs ++ ds) = bytes cs ++ bytes ds :=
  List.flatMap_append

@[simp] theorem length_bytes (cs : List Char) : (bytes cs).length = byteSize cs := by
  induction cs with
  | nil => rfl
  | cons c cs ih => simp [ih]

@[simp] theorem utf8Size_lineBreak : '\n'.utf8Size = 1 := rfl

def lineBreak : UInt8 :=
  '\n'.toUInt8

-- Every byte of a character beyond ASCII has its highest bit set.
theorem or_ne_lineBreak {byte mask : UInt8} (high : 128 ≤ mask.toNat) :
    byte ||| mask ≠ lineBreak := by
  intro same
  have above : mask.toNat ≤ byte.toNat ||| mask.toNat := Nat.right_le_or
  rw [← UInt8.toNat_or, same] at above
  have : lineBreak.toNat = 10 := rfl
  omega

theorem ne_lineBreak_of_mem {c : Char} (other : c ≠ '\n') :
    ∀ byte ∈ String.utf8EncodeChar c, byte ≠ lineBreak := by
  obtain size | size | size | size := c.utf8Size_eq
  · rw [String.utf8EncodeChar_eq_singleton size]
    have small : c.val.toNat ≤ 127 := UInt32.le_iff_toNat_le.mp (Char.utf8Size_eq_one_iff.mp size)
    simp only [List.mem_singleton, forall_eq]
    intro same
    apply other
    have code := congrArg UInt8.toNat same
    rw [UInt32.toNat_toUInt8, Nat.mod_eq_of_lt (by omega)] at code
    exact Char.ext (UInt32.toNat_inj.mp code)
  · rw [String.utf8EncodeChar_eq_cons_cons size]
    simp only [List.forall_mem_cons, List.not_mem_nil, false_imp_iff, implies_true, and_true]
    exact ⟨or_ne_lineBreak (by decide), or_ne_lineBreak (by decide)⟩
  · rw [String.utf8EncodeChar_eq_cons_cons_cons size]
    simp only [List.forall_mem_cons, List.not_mem_nil, false_imp_iff, implies_true, and_true]
    exact ⟨or_ne_lineBreak (by decide), or_ne_lineBreak (by decide), or_ne_lineBreak (by decide)⟩
  · rw [String.utf8EncodeChar_eq_cons_cons_cons_cons size]
    simp only [List.forall_mem_cons, List.not_mem_nil, false_imp_iff, implies_true, and_true]
    exact ⟨or_ne_lineBreak (by decide), or_ne_lineBreak (by decide), or_ne_lineBreak (by decide),
      or_ne_lineBreak (by decide)⟩

theorem bounds_of_mem_breaksFrom {offset : Nat} {cs : List Char} :
    ∀ start ∈ breaksFrom offset cs, offset < start ∧ start ≤ offset + byteSize cs := by
  induction cs generalizing offset with
  | nil => simp [breaksFrom]
  | cons c cs ih =>
      intro start member
      have := c.utf8Size_pos
      have later := @ih (offset + c.utf8Size) start
      rw [byteSize_cons]
      rw [breaksFrom] at member
      by_cases breaks : c = '\n'
      · rw [if_pos breaks, List.mem_cons] at member
        obtain rfl | member := member
        · omega
        · have := later member
          omega
      · rw [if_neg breaks] at member
        have := later member
        omega

theorem pairwise_breaksFrom (offset : Nat) (cs : List Char) :
    (breaksFrom offset cs).Pairwise (· < ·) := by
  induction cs generalizing offset with
  | nil => simp [breaksFrom]
  | cons c cs ih =>
      rw [breaksFrom]
      by_cases breaks : c = '\n'
      · rw [if_pos breaks, List.pairwise_cons]
        exact ⟨fun start member => (bounds_of_mem_breaksFrom start member).1, ih _⟩
      · rw [if_neg breaks]
        exact ih _

theorem takeWhile_breaksFrom_of_le {offset limit : Nat} (cs : List Char) (before : limit ≤ offset) :
    (breaksFrom offset cs).takeWhile (· ≤ limit) = [] := by
  rw [List.takeWhile_eq_nil_iff]
  intro nonempty
  have := bounds_of_mem_breaksFrom _ (List.get_mem (breaksFrom offset cs) ⟨0, nonempty⟩)
  simp only [decide_eq_true_eq]
  omega

theorem count_take_bytes (offset size : Nat) (cs : List Char) :
    ((bytes cs).take size).count lineBreak =
      ((breaksFrom offset cs).takeWhile (· ≤ offset + size)).length := by
  induction cs generalizing offset size with
  | nil => simp [breaksFrom]
  | cons c cs ih =>
      rw [bytes_cons, List.take_append, List.count_append, String.length_utf8EncodeChar, breaksFrom,
        ih (offset + c.utf8Size)]
      by_cases breaks : c = '\n'
      · subst breaks
        have single : String.utf8EncodeChar '\n' = [lineBreak] := rfl
        rw [if_pos rfl, single, utf8Size_lineBreak]
        cases size with
        | zero => simp [takeWhile_breaksFrom_of_le]
        | succ size =>
            have same : offset + 1 + (size + 1 - 1) = offset + (size + 1) := by omega
            rw [same, List.takeWhile_cons_of_pos (by simp)]
            simp [Nat.add_comm]
      · rw [if_neg breaks]
        have none : ((String.utf8EncodeChar c).take size).count lineBreak = 0 := by
          rw [List.count_eq_zero]
          intro member
          exact ne_lineBreak_of_mem breaks _ (List.mem_of_mem_take member) rfl
        rw [none, Nat.zero_add]
        by_cases further : c.utf8Size ≤ size
        · have same : offset + c.utf8Size + (size - c.utf8Size) = offset + size := by omega
          rw [same]
        · -- The end of the bytes lies within the character, and all line breaks lie behind it.
          rw [takeWhile_breaksFrom_of_le cs (by omega), takeWhile_breaksFrom_of_le cs (by omega)]

def startsFrom (offset : Nat) : List (List Char) → List Nat
  | [] => []
  | piece :: pieces => offset :: startsFrom (offset + byteSize piece + 1) pieces

theorem startsFrom_splitOn (offset : Nat) (text : List Char) :
    startsFrom offset (text.splitOn '\n') = offset :: breaksFrom offset text := by
  induction text generalizing offset with
  | nil => simp [startsFrom, breaksFrom]
  | cons c cs ih =>
      rw [List.splitOn_cons_eq_if_modifyHead, breaksFrom]
      by_cases breaks : c = '\n'
      · simp [breaks, startsFrom, ih]
      · obtain ⟨piece, pieces, split⟩ := List.exists_cons_of_ne_nil (List.splitOn_ne_nil '\n' cs)
        have later := ih (offset + c.utf8Size)
        rw [split, startsFrom, List.cons.injEq] at later
        simp [breaks, split, startsFrom, ← later.2, Nat.add_assoc]

@[simp] theorem length_startsFrom (offset : Nat) (pieces : List (List Char)) :
    (startsFrom offset pieces).length = pieces.length := by
  induction pieces generalizing offset with
  | nil => rfl
  | cons piece pieces ih => simp [startsFrom, ih]

theorem getElem?_startsFrom (offset : Nat) (pieces : List (List Char)) (line : Nat) :
    (startsFrom offset pieces)[line]? =
      pieces[line]?.map fun _ => offset + byteSize ((pieces.take line).flatMap (· ++ ['\n'])) := by
  induction pieces generalizing offset line with
  | nil => simp [startsFrom]
  | cons piece pieces ih =>
      cases line with
      | zero => simp [startsFrom]
      | succ line => simp [startsFrom, ih, Nat.add_assoc]

def linesBefore (text : List Char) (line : Nat) : List Char :=
  ((text.splitOn '\n').take line).flatMap (· ++ ['\n'])

theorem byteSize_linesBefore_succ {text piece : List Char} {line : Nat}
    (found : (text.splitOn '\n')[line]? = some piece) :
    byteSize (linesBefore text (line + 1)) =
      byteSize (linesBefore text line) + byteSize piece + 1 := by
  simp [linesBefore, List.take_add_one, found, Nat.add_assoc]

theorem intercalate_append_cons (front : List (List Char)) (piece : List Char)
    (back : List (List Char)) :
    ['\n'].intercalate (front ++ piece :: back) =
      front.flatMap (· ++ ['\n']) ++ (piece ++ back.flatMap ('\n' :: ·)) := by
  induction front with
  | nil =>
      induction back generalizing piece with
      | nil => simp
      | cons next back ih => simpa [List.intercalate_cons_cons] using ih next
  | cons first front ih =>
      rw [List.cons_append, List.intercalate_cons_of_ne_nil (by simp), ih]
      simp

theorem eq_linesBefore_append {text piece : List Char} {line : Nat}
    (found : (text.splitOn '\n')[line]? = some piece) :
    text = linesBefore text line ++
      (piece ++ ((text.splitOn '\n').drop (line + 1)).flatMap ('\n' :: ·)) := by
  obtain ⟨inside, rfl⟩ := List.getElem?_eq_some_iff.mp found
  rw [linesBefore, ← intercalate_append_cons, List.getElem_cons_drop, List.take_append_drop,
    List.intercalate_splitOn]

/-- The line reads `piece`, from byte `start` up to byte `stop` of the text. -/
structure Delimits (text : List Char) (line start stop : Nat) (piece : List Char) : Prop where
  reads : (text.splitOn '\n')[line]? = some piece
  begins : start = byteSize (linesBefore text line)
  ends : stop = start + byteSize piece
  within : ∃ after, text = linesBefore text line ++ (piece ++ after)

end Pipewright.Text
