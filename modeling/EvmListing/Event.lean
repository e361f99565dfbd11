import EvmListing.Listing
import EvmListing.Metadata.Split

/-! What a run reports as it goes. Each event has a level, a message and named fields. -/
namespace EvmListing

inductive Event where
  | stripped (removed remaining : Nat) (solc : Option String)
  | decoding (input runtime : Nat)
  | unassigned (offset : Nat) (opcode : UInt8)
  | truncated (offset : Nat) (opcode : UInt8) (expected available : Nat)
  | finished (bytes instructions : Nat)
  | stoppedEarly (decoded : Nat) (fault : Decoder.Fault)
  | readingFile (path : String)
  deriving DecidableEq, Repr

namespace Event

def level : Event → String
  | unassigned .. | truncated .. => "WARN"
  | stoppedEarly .. => "INFO"
  | _ => "DEBUG"

def message : Event → String
  | stripped .. => "stripped contract metadata"
  | decoding .. => "decoding bytecode"
  | unassigned .. => "unassigned opcode, emitting sentinel"
  | truncated .. => "truncated push operand"
  | finished .. => "disassembly finished"
  | stoppedEarly .. => "disassembly stopped early"
  | readingFile .. => "reading bytecode from file"

def fields : Event → List (String × String)
  | stripped removed remaining solc =>
    [("removed", toString removed), ("remaining", toString remaining),
      ("solc", Text.quoteOption solc)]
  | decoding input runtime => [("input", toString input), ("runtime", toString runtime)]
  | unassigned offset opcode => [("offset", toString offset), ("opcode", toString opcode.toNat)]
  | truncated offset opcode expected available =>
    [("offset", toString offset), ("opcode", toString opcode.toNat),
      ("expected", toString expected), ("available", toString available)]
  | finished bytes instructions =>
    [("bytes", toString bytes), ("instructions", toString instructions)]
  | stoppedEarly decoded fault => [("decoded", toString decoded), ("error", fault.message)]
  | readingFile path => [("path", path)]

/-- What yielding an item reports. -/
def ofItem : Decoder.Item → List Event
  | .ok i => if (Opcode.entry i.opcode).assigned then [] else [unassigned i.offset i.opcode]
  | .error (.truncated opcode _ offset expected available) =>
    [truncated offset opcode expected available.length]
  | .error (.unassigned ..) => []

/-- What splitting off metadata reports. -/
def ofSplit (runtime : Bytes) : Option Metadata → List Event
  | some m => [stripped m.length runtime.length m.solc]
  | none => []

end Event

/-- A value and the events on the way to it, in order. -/
structure Logged (α : Type) where
  value : α
  events : List Event

namespace Logged

protected def pure {α : Type} (value : α) : Logged α := ⟨value, []⟩

protected def bind {α β : Type} (x : Logged α) (f : α → Logged β) : Logged β :=
  let y := f x.value
  ⟨y.value, x.events ++ y.events⟩

protected def map {α β : Type} (f : α → β) (x : Logged α) : Logged β := ⟨f x.value, x.events⟩

instance : Monad Logged where
  pure := Logged.pure
  bind := Logged.bind
  map := Logged.map

def emit (event : Event) : Logged Unit := ⟨(), [event]⟩

@[simp] theorem value_pure {α : Type} (x : α) : (pure x : Logged α).value = x := rfl

@[simp] theorem events_pure {α : Type} (x : α) : (pure x : Logged α).events = [] := rfl

@[simp] theorem value_map {α β : Type} (f : α → β) (x : Logged α) :
    (f <$> x).value = f x.value := rfl

@[simp] theorem events_map {α β : Type} (f : α → β) (x : Logged α) :
    (f <$> x).events = x.events := rfl

@[simp] theorem value_bind {α β : Type} (x : Logged α) (f : α → Logged β) :
    (x >>= f).value = (f x.value).value := rfl

@[simp] theorem events_bind {α β : Type} (x : Logged α) (f : α → Logged β) :
    (x >>= f).events = x.events ++ (f x.value).events := rfl

end Logged

/-- The items given, with what yielding them reports. -/
def Decoder.logged (items : List Decoder.Item) : Logged (List Decoder.Item) :=
  ⟨items, items.flatMap Event.ofItem⟩

namespace Decoder

/-- What taking the next item reports, at the place where the decoder stands: an opcode that is let
through though it is not assigned, an immediate that the code cuts off. -/
def report (d : Decoder) : List Event :=
  match d.rest with
  | [] => []
  | opcode :: rest =>
    let entry := Opcode.entry opcode
    if entry.assigned = false ∧ d.policy = .reject then []
    else
      let available := (rest.take entry.width).length
      (if entry.assigned then [] else [.unassigned d.pc opcode]) ++
        if available < entry.width then [.truncated d.pc opcode entry.width available] else []

def stepLogged (d : Decoder) : Logged (Option (Item × Decoder)) := ⟨d.step, d.report⟩

/-- Lists up to the given number of items, up to the first fault. -/
def listLogged : Nat → Decoder → Logged Listing
  | 0, _ => pure ⟨[], none⟩
  | n+1, d => do
    match ← d.stepLogged with
    | none => return ⟨[], none⟩
    | some (.error fault, _) => return ⟨[], some fault⟩
    | some (.ok instruction, d) =>
      let l ← d.listLogged n
      return ⟨instruction :: l.instructions, l.fault⟩

@[simp] theorem value_listLogged (n : Nat) (d : Decoder) :
    (d.listLogged n).value = Listing.ofItems (d.take n).1 := by
  induction n generalizing d with
  | zero => rfl
  | succ n ih =>
    cases hs : d.step with
    | none => simp [listLogged, stepLogged, take, hs]
    | some next =>
      obtain ⟨item, d'⟩ := next
      cases item <;> simp [listLogged, stepLogged, take, hs, ih]

end Decoder

/-- A pass as far as possible, which reports its end when it reaches that of the code. -/
def decodePartialLogged (policy : Policy) (code : Bytes) : Logged Listing := do
  let listing ← (Decoder.start policy code).listLogged code.length
  if listing.fault.isNone then
    Logged.emit (.finished code.length listing.instructions.length)
  return listing

@[simp] theorem value_decodePartialLogged (policy : Policy) (code : Bytes) :
    (decodePartialLogged policy code).value = decodePartial policy code := by
  simp only [decodePartialLogged, Logged.value_bind, Decoder.value_listLogged]
  split <;> rfl

/-- A split that reports the metadata it removes. -/
def Metadata.splitLogged (scan : Scan) (code : Bytes) :
    Logged (Except Metadata.Fault (Bytes × Option Metadata)) :=
  match split scan code with
  | .ok (runtime, m) => ⟨.ok (runtime, m), Event.ofSplit runtime m⟩
  | .error fault => ⟨.error fault, []⟩

/-- Splitting again and again, with what each step reports. -/
def Metadata.peelLogged (scan : Scan) (limit : Nat) (code : Bytes) :
    Logged (List (Except Metadata.Fault (Bytes × Option Metadata))) :=
  let steps := peel scan limit code
  ⟨steps, steps.flatMap fun step =>
    match step with
    | .ok (runtime, m) => Event.ofSplit runtime m
    | .error _ => []⟩

@[simp] theorem Metadata.value_splitLogged (scan : Scan) (code : Bytes) :
    (splitLogged scan code).value = split scan code := by
  unfold splitLogged
  split <;> simp_all

end EvmListing
