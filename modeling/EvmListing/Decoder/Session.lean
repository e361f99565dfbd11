import EvmListing.Event

/-! A stack of decoders driven by commands. Each command acts on the decoder on top. -/
namespace EvmListing.Decoder

inductive Command where
  | next
  | nth (skipped : Nat)
  | rest
  | count
  | collect
  | pc
  /-- Puts a copy on top. -/
  | fork
  | drop
  deriving DecidableEq, Repr

inductive Answer where
  | item (item : Option Item)
  | items (items : List Item)
  | count (n : Nat)
  | collected (result : Except Fault (List Instruction))
  | nothing

/-- What a command answers, and the decoders after it; the top one is given apart. -/
def Command.run (command : Command) (top : Decoder) (others : List Decoder) :
    Logged Answer × Decoder × List Decoder :=
  let consumed (taken : List Item × Decoder) (answer : Answer) :=
    (⟨answer, taken.1.flatMap Event.ofItem⟩, taken.2, others)
  match command with
  | next => consumed (top.take 1) (.item top.next.1)
  | nth skipped => consumed (top.take (skipped + 1)) (.item (top.nth skipped).1)
  | rest => consumed top.drain (.items top.items)
  | count => consumed top.drain (.count top.items.length)
  | collect => consumed top.drain (.collected (Decoder.collect top.items))
  | pc => (⟨.nothing, []⟩, top, others)
  | fork => (⟨.nothing, []⟩, top, top :: others)
  | drop =>
    match others with
    | [] => (⟨.nothing, []⟩, top, [])
    | d :: others => (⟨.nothing, []⟩, d, others)

/-- Runs commands in order. Each answer comes with the place of the top decoder after it. -/
def session : List Command → Decoder → List Decoder → List (Logged (Nat × Answer))
  | [], _, _ => []
  | command :: commands, top, others =>
    let (answer, top, others) := command.run top others
    ((fun a => (top.pc, a)) <$> answer) :: session commands top others

end EvmListing.Decoder
