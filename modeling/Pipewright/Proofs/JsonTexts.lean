import Mathlib.Data.List.Basic
import Pipewright.JavaScript
import Pipewright.Proofs.Spelling

set_option autoImplicit false

namespace Pipewright

open Text

namespace Json

def hexValue (digit : Char) : Nat :=
  if digit.isDigit then digit.toNat - '0'.toNat else digit.toNat - 'a'.toNat + 10

def unescape? : List Char → Option (Char × List Char)
  | '"' :: _ => none
  | '\\' :: 'b' :: rest => some ('\x08', rest)
  | '\\' :: 't' :: rest => some ('\t', rest)
  | '\\' :: 'n' :: rest => some ('\n', rest)
  | '\\' :: 'f' :: rest => some ('\x0c', rest)
  | '\\' :: 'r' :: rest => some ('\r', rest)
  | '\\' :: 'u' :: '0' :: '0' :: high :: low :: rest =>
      some (Char.ofNat (16 * hexValue high + hexValue low), rest)
  | '\\' :: c :: rest => some (c, rest)
  | c :: rest => some (c, rest)
  | [] => none

theorem hexValue_digitChar : ∀ n < 16, hexValue (Nat.digitChar n) = n := by
  decide

theorem unescape?_escape (c : Char) (rest : List Char) :
    unescape? (escape c ++ rest) = some (c, rest) := by
  fun_cases escape c with
  | case8 c _ _ _ _ _ _ _ control =>
      have value : 16 * hexValue (Nat.digitChar (c.toNat / 16)) +
          hexValue (Nat.digitChar (c.toNat % 16)) = c.toNat := by
        rw [hexValue_digitChar _ (by omega), hexValue_digitChar _ (by omega)]
        omega
      simp [unescape?, value]
  | case9 c _ _ _ _ _ _ _ shown => simp_all [unescape?]
  | _ => rfl

theorem escaped_inj {chars others rest after : List Char}
    (same : chars.flatMap escape ++ '"' :: rest = others.flatMap escape ++ '"' :: after) :
    chars = others ∧ rest = after := by
  induction chars generalizing others with
  | nil =>
      cases others with
      | nil => simpa using same
      | cons d others =>
          have first := congrArg unescape? same
          rw [List.flatMap_cons, List.append_assoc, unescape?_escape] at first
          cases first
  | cons c chars ih =>
      have first := congrArg unescape? same
      rw [List.flatMap_cons, List.append_assoc, unescape?_escape] at first
      cases others with
      | nil => cases first
      | cons d others =>
          rw [List.flatMap_cons, List.append_assoc, unescape?_escape] at first
          obtain ⟨rfl, later⟩ := Prod.mk.inj (Option.some.inj first)
          obtain ⟨rfl, rfl⟩ := ih later
          exact ⟨rfl, rfl⟩

theorem quote_append_inj {text other : String} {rest after : List Char}
    (same : quote text ++ rest = quote other ++ after) : text = other ∧ rest = after := by
  have inner : text.toList.flatMap escape ++ '"' :: rest =
      other.toList.flatMap escape ++ '"' :: after := by
    simpa [quote] using same
  obtain ⟨chars, rfl⟩ := escaped_inj inner
  exact ⟨String.toList_inj.mp chars, rfl⟩

inductive Shape where
  | number | bool | string | array | object

def shape : Json → Shape
  | .number _ => .number
  | .bool _ => .bool
  | .string _ => .string
  | .array _ => .array
  | .object _ => .object

def Shape.ofChar? (c : Char) : Option Shape :=
  if c.isDigit then some .number
  else
    match c with
    | 't' | 'f' => some .bool
    | '"' => some .string
    | '[' => some .array
    | '\x7b' => some .object
    | _ => none

@[simp] theorem newline_compact (level : Nat) : Layout.compact.newline level = [] := rfl

@[simp] theorem gap_compact : Layout.compact.gap = [] := rfl

theorem exists_write_compact (json : Json) (level : Nat) (rest : List Char) :
    ∃ first later, json.write .compact level rest = first :: later ∧
      Shape.ofChar? first = some json.shape := by
  cases json with
  | number value =>
      obtain ⟨first, digits, whole⟩ : ∃ first digits, decimal value = first :: digits :=
        List.exists_cons_of_ne_nil Nat.toDigits_ne_nil
      have leads : first ∈ decimal value := by simp [whole]
      have digit := isDigit_of_mem_decimal leads
      exact ⟨first, digits ++ rest, by rw [write, whole, List.cons_append], if_pos digit⟩
  | bool value => cases value <;> exact ⟨_, _, rfl, rfl⟩
  | string text => exact ⟨_, _, rfl, rfl⟩
  | array items => cases items <;> exact ⟨_, _, rfl, rfl⟩
  | object fields => cases fields <;> exact ⟨_, _, rfl, rfl⟩

theorem shape_eq_of_write_eq {json other : Json} {level depth : Nat} {rest after : List Char}
    (same : json.write .compact level rest = other.write .compact depth after) :
    json.shape = other.shape := by
  obtain ⟨c, _, first, found⟩ := json.exists_write_compact level rest
  obtain ⟨d, _, second, sought⟩ := other.exists_write_compact depth after
  rw [first, second] at same
  cases same
  exact Option.some.inj (found.symm.trans sought)

theorem write_ne_cons {c : Char} (mark : Shape.ofChar? c = none) (json : Json) (level : Nat)
    (rest after : List Char) : json.write .compact level rest ≠ c :: after := by
  obtain ⟨first, _, whole, found⟩ := json.exists_write_compact level rest
  rw [whole]
  rintro ⟨⟩
  cases found.symm.trans mark

theorem boolean_append_inj {value other : Bool} {rest after : List Char}
    (same : boolean value ++ rest = boolean other ++ after) : value = other ∧ rest = after := by
  cases value <;> cases other <;> simp_all [boolean]

theorem endsNumber_writeItems (items : List Json) (level : Nat) (rest : List Char) :
    EndsNumber (writeItems .compact level items (']' :: rest)) := by
  cases items <;> exact endsNumber_cons _ rfl

theorem endsNumber_writeFields (fields : List (String × Json)) (level : Nat) (rest : List Char) :
    EndsNumber (writeFields .compact level fields ('\x7d' :: rest)) := by
  rcases fields with _ | ⟨⟨name, value⟩, fields⟩ <;> exact endsNumber_cons _ rfl

theorem key_inj {name other : String} {rest after : List Char}
    (same : Layout.compact.key name rest = Layout.compact.key other after) :
    name = other ∧ rest = after := by
  simp only [Layout.key, gap_compact, List.append_assoc] at same
  obtain ⟨rfl, later⟩ := quote_append_inj same
  exact ⟨rfl, (List.cons.inj later).2⟩

-- Behind its opening mark a row is written like the rest of a row, but for the first comma.
theorem writeItems_eq_of_write_eq {items others : List Json} {level depth : Nat}
    {rest after : List Char}
    (same : (array items).write .compact level rest = (array others).write .compact depth after) :
    writeItems .compact (level + 1) items (']' :: rest) =
      writeItems .compact (depth + 1) others (']' :: after) := by
  match items, others with
  | [], [] => exact (List.cons.inj same).2
  | [], _ :: _ => exact absurd (List.cons.inj same).2.symm (write_ne_cons rfl _ _ _ _)
  | _ :: _, [] => exact absurd (List.cons.inj same).2 (write_ne_cons rfl _ _ _ _)
  | item :: items, other :: others => exact congrArg (List.cons ',') (List.cons.inj same).2

theorem writeFields_eq_of_write_eq {fields others : List (String × Json)} {level depth : Nat}
    {rest after : List Char}
    (same : (object fields).write .compact level rest =
      (object others).write .compact depth after) :
    writeFields .compact (level + 1) fields ('\x7d' :: rest) =
      writeFields .compact (depth + 1) others ('\x7d' :: after) := by
  match fields, others with
  | [], [] => exact (List.cons.inj same).2
  | [], _ :: _ | _ :: _, [] => simp [write, Layout.key, quote] at same
  | (name, value) :: fields, (key, other) :: others =>
      exact congrArg (List.cons ',') (List.cons.inj same).2

mutual

theorem write_inj (json other : Json) {level depth : Nat} {rest after : List Char}
    (ends : EndsNumber rest) (stops : EndsNumber after)
    (same : json.write .compact level rest = other.write .compact depth after) :
    json = other ∧ rest = after := by
  match json, other, shape_eq_of_write_eq same with
  | .number _, .number _, _ =>
      obtain ⟨rfl, rfl⟩ := decimal_append_inj ends stops same
      exact ⟨rfl, rfl⟩
  | .bool _, .bool _, _ =>
      obtain ⟨rfl, rfl⟩ := boolean_append_inj same
      exact ⟨rfl, rfl⟩
  | .string _, .string _, _ =>
      obtain ⟨rfl, rfl⟩ := quote_append_inj same
      exact ⟨rfl, rfl⟩
  | .array items, .array others, _ =>
      obtain ⟨rfl, rfl⟩ := writeItems_inj items others (writeItems_eq_of_write_eq same)
      exact ⟨rfl, rfl⟩
  | .object fields, .object others, _ =>
      obtain ⟨rfl, rfl⟩ := writeFields_inj fields others (writeFields_eq_of_write_eq same)
      exact ⟨rfl, rfl⟩

theorem writeItems_inj (items others : List Json) {level depth : Nat} {rest after : List Char}
    (same : writeItems .compact level items (']' :: rest) =
      writeItems .compact depth others (']' :: after)) : items = others ∧ rest = after := by
  match items, others with
  | [], [] => simpa [writeItems] using same
  | [], _ :: _ | _ :: _, [] => simp [writeItems] at same
  | item :: items, other :: others =>
      obtain ⟨rfl, later⟩ := write_inj item other (endsNumber_writeItems items _ rest)
        (endsNumber_writeItems others _ after) (List.cons.inj same).2
      obtain ⟨rfl, rfl⟩ := writeItems_inj items others later
      exact ⟨rfl, rfl⟩

theorem writeFields_inj (fields others : List (String × Json)) {level depth : Nat}
    {rest after : List Char}
    (same : writeFields .compact level fields ('\x7d' :: rest) =
      writeFields .compact depth others ('\x7d' :: after)) : fields = others ∧ rest = after := by
  match fields, others with
  | [], [] => simpa [writeFields] using same
  | [], _ :: _ | _ :: _, [] => simp [writeFields] at same
  | (name, value) :: fields, (key, other) :: others =>
      obtain ⟨rfl, inner⟩ := key_inj (List.cons.inj same).2
      obtain ⟨rfl, later⟩ := write_inj value other (endsNumber_writeFields fields _ rest)
        (endsNumber_writeFields others _ after) inner
      obtain ⟨rfl, rfl⟩ := writeFields_inj fields others later
      exact ⟨rfl, rfl⟩

end

theorem compact_injective : Function.Injective compact := by
  intro json other same
  have texts := String.ofList_inj.mp same
  exact (write_inj json other endsNumber_nil endsNumber_nil texts).1

inductive Place where
  | outside | inside | escaped
deriving DecidableEq

def Place.after (c : Char) : Place → Place
  | .outside => if c = '"' then .inside else .outside
  | .inside => if c = '"' then .outside else if c = '\\' then .escaped else .inside
  | .escaped => .inside

def squeeze : Place → List Char → List Char
  | _, [] => []
  | place, c :: cs =>
      if place = .outside ∧ isBlank c then squeeze (place.after c) cs
      else c :: squeeze (place.after c) cs

/-- The text without the blanks that stand outside of its strings. -/
def withoutBlanks (text : String) : String :=
  String.ofList (squeeze .outside text.toList)

theorem squeeze_blanks {blanks : List Char} (all : ∀ c ∈ blanks, isBlank c = true)
    (rest : List Char) : squeeze .outside (blanks ++ rest) = squeeze .outside rest := by
  induction blanks with
  | nil => rfl
  | cons c blanks ih =>
      obtain ⟨blank, later⟩ := List.forall_mem_cons.mp all
      have plain : c ≠ '"' := by
        rintro rfl
        exact absurd blank (by decide)
      simp [squeeze, Place.after, blank, plain, ih later]

theorem squeeze_mark {c : Char} (shown : isBlank c = false) (plain : c ≠ '"') (rest : List Char) :
    squeeze .outside (c :: rest) = c :: squeeze .outside rest := by
  simp [squeeze, Place.after, shown, plain]

theorem squeeze_word {word : List Char} (all : ∀ c ∈ word, isWordChar c = true)
    (rest : List Char) : squeeze .outside (word ++ rest) = word ++ squeeze .outside rest := by
  induction word with
  | nil => rfl
  | cons c word ih =>
      obtain ⟨letter, later⟩ := List.forall_mem_cons.mp all
      have plain : c ≠ '"' := by
        rintro rfl
        exact absurd letter (by decide)
      rw [List.cons_append, squeeze_mark (isBlank_eq_false_of_isWordChar letter) plain, ih later,
        List.cons_append]

theorem digitChar_ne : ∀ n < 16, Nat.digitChar n ≠ '"' ∧ Nat.digitChar n ≠ '\\' := by
  decide

theorem squeeze_escape (c : Char) (rest : List Char) :
    squeeze .inside (escape c ++ rest) = escape c ++ squeeze .inside rest := by
  fun_cases escape c with
  | case8 c _ _ _ _ _ _ _ control =>
      have high := digitChar_ne (c.toNat / 16) (by omega)
      have low := digitChar_ne (c.toNat % 16) (by omega)
      simp [squeeze, Place.after, high, low]
  | case9 c _ _ _ _ _ _ _ shown => simp_all [squeeze, Place.after]
  | _ => simp [squeeze, Place.after]

theorem squeeze_quote (text : String) (rest : List Char) :
    squeeze .outside (quote text ++ rest) = quote text ++ squeeze .outside rest := by
  have inner : ∀ chars : List Char, squeeze .inside (chars.flatMap escape ++ '"' :: rest) =
      chars.flatMap escape ++ '"' :: squeeze .outside rest := by
    intro chars
    induction chars with
    | nil => simp [squeeze, Place.after]
    | cons c chars ih =>
        rw [List.flatMap_cons, List.append_assoc, squeeze_escape, ih, List.append_assoc]
  have shown : isBlank '"' = false := by decide
  simp [quote, squeeze, Place.after, shown, inner]

structure Layout.IsBlank (layout : Layout) : Prop where
  newline : ∀ level, ∀ c ∈ layout.newline level, isBlank c = true
  gap : ∀ c ∈ layout.gap, isBlank c = true

theorem isBlank_pretty : Layout.pretty.IsBlank where
  newline level c member := by
    obtain rfl | ⟨-, rfl⟩ : c = '\n' ∨ _ ∧ c = ' ' := by
      simpa [Layout.pretty] using member
    · decide
    · decide
  gap := List.all_eq_true.mp (by decide)

section

variable {layout : Layout} (blank : layout.IsBlank)

include blank

theorem squeeze_key (name : String) (rest : List Char) :
    squeeze .outside (layout.key name rest) = Layout.compact.key name (squeeze .outside rest) := by
  rw [Layout.key, List.append_assoc, squeeze_quote, List.cons_append,
    squeeze_mark (by decide) (by decide), squeeze_blanks blank.gap]
  simp [Layout.key]

mutual

theorem squeeze_write (json : Json) (level depth : Nat) (rest : List Char) :
    squeeze .outside (json.write layout level rest) =
      json.write .compact depth (squeeze .outside rest) := by
  match json with
  | .number value =>
      apply squeeze_word
      intro c member
      exact isWordChar_of_isDigit (isDigit_of_mem_decimal member)
  | .bool value =>
      have letters : (boolean value).all isWordChar = true := by cases value <;> decide
      exact squeeze_word (List.all_eq_true.mp letters) rest
  | .string text => exact squeeze_quote text rest
  | .array [] =>
      rw [write, squeeze_mark (by decide) (by decide), squeeze_mark (by decide) (by decide), write]
  | .array (item :: items) =>
      rw [write, List.cons_append, squeeze_mark (by decide) (by decide),
        squeeze_blanks (blank.newline _), squeeze_write item _ (depth + 1),
        squeeze_writeItems items _ (depth + 1), squeeze_blanks (blank.newline _),
        squeeze_mark (by decide) (by decide)]
      rfl
  | .object [] =>
      rw [write, squeeze_mark (by decide) (by decide), squeeze_mark (by decide) (by decide), write]
  | .object ((name, value) :: fields) =>
      rw [write, List.cons_append, squeeze_mark (by decide) (by decide),
        squeeze_blanks (blank.newline _), squeeze_key blank, squeeze_write value _ (depth + 1),
        squeeze_writeFields fields _ (depth + 1), squeeze_blanks (blank.newline _),
        squeeze_mark (by decide) (by decide)]
      rfl

theorem squeeze_writeItems (items : List Json) (level depth : Nat) (rest : List Char) :
    squeeze .outside (writeItems layout level items rest) =
      writeItems .compact depth items (squeeze .outside rest) := by
  match items with
  | [] => rfl
  | item :: items =>
      rw [writeItems, List.cons_append, squeeze_mark (by decide) (by decide),
        squeeze_blanks (blank.newline _), squeeze_write item _ depth,
        squeeze_writeItems items _ depth]
      rfl

theorem squeeze_writeFields (fields : List (String × Json)) (level depth : Nat)
    (rest : List Char) :
    squeeze .outside (writeFields layout level fields rest) =
      writeFields .compact depth fields (squeeze .outside rest) := by
  match fields with
  | [] => rfl
  | (name, value) :: fields =>
      rw [writeFields, List.cons_append, squeeze_mark (by decide) (by decide),
        squeeze_blanks (blank.newline _), squeeze_key blank, squeeze_write value _ depth,
        squeeze_writeFields fields _ depth]
      rfl

end

end

theorem withoutBlanks_pretty (json : Json) : withoutBlanks json.pretty = json.compact := by
  rw [withoutBlanks, pretty, render, String.toList_ofList, squeeze_write isBlank_pretty json 0 0]
  rfl

end Json

namespace JavaScript

theorem BinaryOperator.spelling_injective : Function.Injective BinaryOperator.spelling := by
  intro operator other same
  cases operator <;> cases other <;> simp_all [BinaryOperator.spelling]

theorem LogicalOperator.spelling_injective : Function.Injective LogicalOperator.spelling := by
  intro operator other same
  cases operator <;> cases other <;> simp_all [LogicalOperator.spelling]

theorem VariableKind.spelling_injective : Function.Injective VariableKind.spelling := by
  intro kind other same
  cases kind <;> cases other <;> simp_all [VariableKind.spelling]

@[simp] theorem node_eq_node_iff {type other : String} {fields others : List (String × Json)} :
    node type fields = node other others ↔ type = other ∧ fields = others := by
  simp [node]

namespace Expression

mutual

-- The type that stands first in a node tells which constructor it was made for.
theorem toJson_inj (expression other : Expression) (same : expression.toJson = other.toJson) :
    expression = other := by
  match expression with
  | .identifier name =>
      cases other with
      | identifier => simpa [toJson] using same
      | _ => simp [toJson] at same
  | .literal value raw =>
      cases other with
      | literal => simpa [toJson, UInt64.toNat_inj] using same
      | _ => simp [toJson] at same
  | .call callee arguments optional =>
      cases other with
      | call function inputs chained =>
          obtain ⟨first, rest, flag⟩ : callee.toJson = function.toJson ∧
              toJsons arguments = toJsons inputs ∧ optional = chained := by
            simpa [toJson] using same
          rw [toJson_inj callee function first, toJsons_inj arguments inputs rest, flag]
      | _ => simp [toJson] at same
  | .member object property computed optional =>
      cases other with
      | member base key bracketed chained =>
          obtain ⟨first, second, flags⟩ : object.toJson = base.toJson ∧
              property.toJson = key.toJson ∧ computed = bracketed ∧ optional = chained := by
            simpa [toJson] using same
          rw [toJson_inj object base first, toJson_inj property key second, flags.1, flags.2]
      | _ => simp [toJson] at same
  | .binary operator left right =>
      cases other with
      | binary sign lhs rhs =>
          obtain ⟨spelling, first, second⟩ : operator.spelling = sign.spelling ∧
              left.toJson = lhs.toJson ∧ right.toJson = rhs.toJson := by
            simpa [toJson] using same
          rw [BinaryOperator.spelling_injective spelling, toJson_inj left lhs first,
            toJson_inj right rhs second]
      | _ => simp [toJson] at same
  | .logical operator left right =>
      cases other with
      | logical sign lhs rhs =>
          obtain ⟨spelling, first, second⟩ : operator.spelling = sign.spelling ∧
              left.toJson = lhs.toJson ∧ right.toJson = rhs.toJson := by
            simpa [toJson] using same
          rw [LogicalOperator.spelling_injective spelling, toJson_inj left lhs first,
            toJson_inj right rhs second]
      | _ => simp [toJson] at same
  | .await argument =>
      cases other with
      | await awaited =>
          have inner : argument.toJson = awaited.toJson := by simpa [toJson] using same
          rw [toJson_inj argument awaited inner]
      | _ => simp [toJson] at same

theorem toJsons_inj (expressions others : List Expression)
    (same : toJsons expressions = toJsons others) : expressions = others := by
  match expressions, others with
  | [], [] => rfl
  | [], _ :: _ | _ :: _, [] => simp [toJsons] at same
  | expression :: rest, other :: others =>
      rw [toJsons, toJsons, List.cons.injEq] at same
      rw [toJson_inj expression other same.1, toJsons_inj rest others same.2]

end

end Expression

theorem Declarator.toJson_injective : Function.Injective Declarator.toJson := by
  intro ⟨id, init⟩ ⟨name, value⟩ same
  obtain ⟨first, second⟩ : id.toJson = name.toJson ∧ init.toJson = value.toJson := by
    simpa [toJson] using same
  rw [Expression.toJson_inj id name first, Expression.toJson_inj init value second]

theorem Statement.toJson_injective : Function.Injective Statement.toJson := by
  intro statement other same
  cases statement with
  | declaration kind declarators =>
      cases other with
      | declaration word bindings =>
          obtain ⟨spelling, all⟩ : kind.spelling = word.spelling ∧
              declarators.map Declarator.toJson = bindings.map Declarator.toJson := by
            simpa [toJson] using same
          rw [VariableKind.spelling_injective spelling,
            List.map_injective_iff.mpr Declarator.toJson_injective all]
      | expression => simp [toJson] at same
  | expression whole =>
      cases other with
      | declaration => simp [toJson] at same
      | expression value =>
          have inner : whole.toJson = value.toJson := by simpa [toJson] using same
          rw [Expression.toJson_inj whole value inner]

theorem Program.toJson_injective : Function.Injective Program.toJson := by
  intro ⟨body⟩ ⟨statements⟩ same
  have all : body.map Statement.toJson = statements.map Statement.toJson := by
    simpa [toJson] using same
  rw [List.map_injective_iff.mpr Statement.toJson_injective all]

/-- The compact text of a tree determines the tree, and the indented text is the compact one with
blanks outside of its strings. -/
theorem json_texts_determine_program (program other : Program) :
    (program.toJson.compact = other.toJson.compact ↔ program = other) ∧
      Json.withoutBlanks program.toJson.pretty = program.toJson.compact := by
  refine ⟨⟨?_, ?_⟩, program.toJson.withoutBlanks_pretty⟩
  · intro same
    exact Program.toJson_injective (Json.compact_injective same)
  · rintro rfl
    rfl

end JavaScript

end Pipewright
