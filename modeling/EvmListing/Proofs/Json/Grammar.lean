import EvmListing.Bytes

/-! JSON texts and the values they stand for, as the standard's grammar has them: what a text may
look like, not how it is read. A number stands for its own spelling, an object for its members in the
order of the text. -/
namespace EvmListing.Json

inductive Value where
  | null
  | bool (value : Bool)
  | number (written : List Char)
  | string (content : String)
  | array (items : List Value)
  | object (members : List (String × Value))

def IsBlank (c : Char) : Prop := c ∈ [' ', '\t', '\n', '\r']

/-- What may stand around tokens. -/
structure Gap where
  chars : List Char
  blank : ∀ c ∈ chars, IsBlank c

def Gap.none : Gap := { chars := [], blank := nofun }

/-- The part of a number before the point. Only zero begins with a zero. -/
inductive Whole : List Char → Prop
  | zero : Whole ['0']
  | positive {d : Char} {ds : List Char} (first : d.isDigit ∧ d ≠ '0')
      (more : ∀ c ∈ ds, c.isDigit) : Whole (d :: ds)

inductive Fraction : List Char → Prop
  | none : Fraction []
  | digits {ds : List Char} (given : ds ≠ []) (all : ∀ c ∈ ds, c.isDigit) : Fraction ('.' :: ds)

inductive Exponent : List Char → Prop
  | none : Exponent []
  | digits {e : Char} {sign ds : List Char} (letter : e = 'e' ∨ e = 'E')
      (signed : sign = [] ∨ sign = ['+'] ∨ sign = ['-']) (given : ds ≠ []) (all : ∀ c ∈ ds, c.isDigit) :
      Exponent (e :: (sign ++ ds))

inductive IsNumber : List Char → Prop
  | parts {sign whole fraction exponent : List Char} (signed : sign = [] ∨ sign = ['-'])
      (before : Whole whole) (after : Fraction fraction) (power : Exponent exponent) :
      IsNumber (sign ++ (whole ++ (fraction ++ exponent)))

/-- A hex digit of either case. -/
def hexDigit? (c : Char) : Option Nat :=
  if c.isDigit then some (c.toNat - '0'.toNat)
  else if 'a' ≤ c ∧ c ≤ 'f' then some (c.toNat - 'a'.toNat + 10)
  else if 'A' ≤ c ∧ c ≤ 'F' then some (c.toNat - 'A'.toNat + 10)
  else none

/-- The number that hex digits spell. -/
def hexNumber (ds : List Char) : Option Nat :=
  ds.foldlM (fun n d => (hexDigit? d).map (16*n + ·)) 0

/-- What a single character after a backslash stands for. -/
def namedEscape? : Char → Option Char
  | '"' => some '"'
  | '\\' => some '\\'
  | '/' => some '/'
  | 'b' => some '\x08'
  | 'f' => some '\x0C'
  | 'n' => some '\n'
  | 'r' => some '\r'
  | 't' => some '\t'
  | _ => none

def IsHighSurrogate (n : Nat) : Prop := 0xD800 ≤ n ∧ n ≤ 0xDBFF

def IsLowSurrogate (n : Nat) : Prop := 0xDC00 ≤ n ∧ n ≤ 0xDFFF

/-- The number of a character in four hex digits, or its two surrogates in four digits each. -/
inductive Numbered : Char → List Char → Prop
  | one {c : Char} {ds : List Char} (four : ds.length = 4) (value : hexNumber ds = some c.toNat) :
      Numbered c ds
  | two {c : Char} {ds es : List Char} {high low : Nat} (four : ds.length = 4)
      (four' : es.length = 4) (first : hexNumber ds = some high) (second : hexNumber es = some low)
      (leads : IsHighSurrogate high) (trails : IsLowSurrogate low)
      (value : c.toNat = 0x10000 + (high - 0xD800) * 0x400 + (low - 0xDC00)) :
      Numbered c (ds ++ '\\' :: 'u' :: es)

/-- A character inside a string: as it is, by name or by number. Controls are not written as they
are. -/
inductive Written : Char → List Char → Prop
  | plain {c : Char} (printable : 0x20 ≤ c.toNat) (free : c ≠ '"' ∧ c ≠ '\\') : Written c [c]
  | named {c name : Char} (known : namedEscape? name = some c) : Written c ['\\', name]
  | numbered {c : Char} {s : List Char} (number : Numbered c s) : Written c ('\\' :: 'u' :: s)

/-- The characters of a string up to its closing mark. -/
inductive Body : List Char → List Char → Prop
  | done : Body [] ['"']
  | more {c : Char} {cs s t : List Char} (first : Written c s) (rest : Body cs t) :
      Body (c :: cs) (s ++ t)

def Quoted (content : String) (s : List Char) : Prop := ∃ t, Body content.toList t ∧ s = '"' :: t

/-- An element of an array with the text of its value. -/
structure Item where
  value : Value
  text : List Char

/-- A member of an object with the texts of its name and its value. -/
structure Member where
  name : String
  key : List Char
  quoted : Quoted name key
  beforeColon : Gap
  afterColon : Gap
  item : Item

def Member.text (m : Member) : List Char :=
  m.key ++ (m.beforeColon.chars ++ ':' :: (m.afterColon.chars ++ m.item.text))

def Member.entry (m : Member) : String × Value := (m.name, m.item.value)

/-- An element or a member and what stands around it. -/
structure Piece (α : Type) where
  before : Gap
  content : α
  after : Gap

section
variable {α : Type} (text : α → List Char) (close : Char)

/-- What follows a part: the gap after it, then a comma and more parts or the closing bracket. -/
def rest : Gap → List (Piece α) → List Char
  | gap, [] => gap.chars ++ [close]
  | gap, p :: ps =>
    gap.chars ++ ',' :: (p.before.chars ++ (text p.content ++ rest p.after ps))

/-- What follows an opening bracket. Brackets without parts have a gap inside. -/
def series (inside : Gap) : List (Piece α) → List Char
  | [] => inside.chars ++ [close]
  | p :: ps => p.before.chars ++ (text p.content ++ rest text close p.after ps)

end

/-- The texts of a value, without blanks around it. -/
inductive Spells : Value → List Char → Prop
  | null : Spells .null ['n', 'u', 'l', 'l']
  | yes : Spells (.bool true) ['t', 'r', 'u', 'e']
  | no : Spells (.bool false) ['f', 'a', 'l', 's', 'e']
  | number {s : List Char} (form : IsNumber s) : Spells (.number s) s
  | string {content : String} {s : List Char} (form : Quoted content s) : Spells (.string content) s
  | array (inside : Gap) (parts : List (Piece Item))
      (all : ∀ p ∈ parts, Spells p.content.value p.content.text) :
      Spells (.array (parts.map fun p => p.content.value))
        ('[' :: series Item.text ']' inside parts)
  | object (inside : Gap) (parts : List (Piece Member))
      (all : ∀ p ∈ parts, Spells p.content.item.value p.content.item.text) :
      Spells (.object (parts.map fun p => p.content.entry))
        ('\x7b' :: series Member.text '\x7d' inside parts)

/-- Whether a text is JSON for a value. -/
def IsText (v : Value) (s : List Char) : Prop :=
  ∃ (before after : Gap) (core : List Char),
    Spells v core ∧ s = before.chars ++ (core ++ after.chars)

theorem IsText.append_blank {v : Value} {s t : List Char} (h : IsText v s)
    (blank : ∀ c ∈ t, IsBlank c) : IsText v (s ++ t) := by
  obtain ⟨before, after, core, hcore, rfl⟩ := h
  have hafter : ∀ c ∈ after.chars ++ t, IsBlank c := fun c hc =>
    (List.mem_append.mp hc).elim (after.blank c) (blank c)
  exact ⟨before, ⟨after.chars ++ t, hafter⟩, core, hcore, by simp⟩

namespace Value

def members : Value → List (String × Value)
  | object members => members
  | _ => []

def names (v : Value) : List String := v.members.map Prod.fst

/-- The first member of an object with a name. -/
def get? (v : Value) (name : String) : Option Value := v.members.lookup name

/-- The number that a value spells in decimal digits alone. -/
def nat? : Value → Option Nat
  | number ds =>
    if !ds.isEmpty && ds.all Char.isDigit then some (Nat.ofDigitChars 10 ds 0) else none
  | _ => none

/-- Whether no object inside has a name twice. -/
inductive Distinct : Value → Prop
  | null : Distinct .null
  | bool (value : Bool) : Distinct (.bool value)
  | number (written : List Char) : Distinct (.number written)
  | string (content : String) : Distinct (.string content)
  | array {items : List Value} (all : ∀ v ∈ items, v.Distinct) : Distinct (.array items)
  | object {members : List (String × Value)} (nodup : (members.map Prod.fst).Nodup)
      (all : ∀ m ∈ members, m.2.Distinct) : Distinct (.object members)

end Value
end EvmListing.Json
