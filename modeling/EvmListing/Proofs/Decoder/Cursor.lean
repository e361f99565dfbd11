import EvmListing.Decoder.Session
import EvmListing.Proofs.Decoder.Pass

/-! Decoders as cursors into the list of all items of a code. Whatever commands a stack of decoders
gets, its answers are those of a stack of indices into this one list. -/
namespace EvmListing.Decoder

/-- The decoder that so many items were taken from. -/
def after (d : Decoder) (n : Nat) : Decoder := (d.take n).2

/-- The instructions among some items, or the fault that comes last. -/
def gather (items : List Item) : Except Fault (List Instruction) :=
  match items.getLast? with
  | some (.error fault) => .error fault
  | _ => .ok (items.filterMap Except.toOption)

/-- What a command answers where each decoder is an index into the items, and the indices then. -/
def Command.onIndices (items : List Item) (command : Command) (top : Nat) (others : List Nat) :
    Answer × Nat × List Nat :=
  match command with
  | next => (.item items[top]?, if top < items.length then top + 1 else top, others)
  | nth skipped => (.item items[top + skipped]?, min (top + skipped + 1) items.length, others)
  | rest => (.items (items.drop top), items.length, others)
  | count => (.count (items.length - top), items.length, others)
  | collect => (.collected (gather (items.drop top)), items.length, others)
  | pc => (.nothing, top, others)
  | fork => (.nothing, top, top :: others)
  | drop =>
    match others with
    | [] => (.nothing, top, [])
    | i :: others => (.nothing, i, others)

/-- Where an item of a code leaves a decoder. -/
def landing (code : Bytes) : Item → Nat
  | .ok instruction => instruction.address
  | .error (.truncated ..) => code.length
  | .error (.unassigned _ offset) => offset + 1

/-- The place of a decoder that is an index: where the item before the index leaves it. -/
def place (code : Bytes) (items : List Item) : Nat → Nat
  | 0 => 0
  | i+1 => (items[i]?.map (landing code)).getD 0

/-- The answers to commands where each decoder is an index, with the place of the top one. -/
def indexSession (code : Bytes) (items : List Item) :
    List Command → Nat → List Nat → List (Nat × Answer)
  | [], _, _ => []
  | command :: commands, top, others =>
    let (answer, top, others) := command.onIndices items top others
    (place code items top, answer) :: indexSession code items commands top others

section
variable {d d' : Decoder} {item : Item} {n : Nat}

@[simp] theorem after_zero (d : Decoder) : d.after 0 = d := rfl

theorem after_of_none (h : d.step = none) (n : Nat) : d.after n = d := by
  cases n with
  | zero => rfl
  | succ n => simp [after, take, h]

theorem after_of_step (h : d.step = some (item, d')) (n : Nat) : d.after (n + 1) = d'.after n := by
  simp [after, take, h]

theorem items_of_none (h : d.step = none) : d.items = [] := by
  rw [items, drain]
  cases d.rest.length with
  | zero => rfl
  | succ n => simp [take, h]

/-- Taking from a decoder gives the first of its items. -/
theorem take_eq (d : Decoder) (n : Nat) : d.take n = (d.items.take n, d.after n) := by
  refine Prod.ext ?_ rfl
  induction n generalizing d with
  | zero => rfl
  | succ n ih =>
    cases hs : d.step with
    | none => simp [take, hs, items_of_none hs]
    | some next =>
      obtain ⟨item, d'⟩ := next
      simp only [take, hs, items_of_step hs, List.take_succ_cons, ih d']

theorem items_after (d : Decoder) (n : Nat) : (d.after n).items = d.items.drop n := by
  induction n generalizing d with
  | zero => rfl
  | succ n ih =>
    cases hs : d.step with
    | none => simp [after_of_none hs, items_of_none hs]
    | some next =>
      obtain ⟨item, d'⟩ := next
      rw [after_of_step hs, ih d', items_of_step hs, List.drop_succ_cons]

theorem after_after (d : Decoder) (m n : Nat) : (d.after m).after n = d.after (m + n) := by
  induction m generalizing d with
  | zero => rw [Nat.zero_add, after_zero]
  | succ m ih =>
    cases hs : d.step with
    | none => simp only [after_of_none hs]
    | some next =>
      obtain ⟨item, d'⟩ := next
      rw [after_of_step hs, ih d', Nat.succ_add, after_of_step hs]

/-- A decoder without items stays where it is. -/
theorem after_of_items_nil (h : d.items = []) (n : Nat) : d.after n = d := by
  apply after_of_none
  cases hs : d.step with
  | none => rfl
  | some next =>
    obtain ⟨item, d'⟩ := next
    rw [items_of_step hs] at h
    cases h

theorem after_min (d : Decoder) (n : Nat) : d.after (min n d.items.length) = d.after n := by
  obtain hle | hle := Nat.le_total n d.items.length
  · rw [Nat.min_eq_left hle]
  · obtain ⟨k, rfl⟩ := Nat.exists_eq_add_of_le hle
    have hnil : (d.after d.items.length).items = [] := by
      rw [items_after, List.drop_length]
    rw [Nat.min_eq_right hle, ← after_after, after_of_items_nil hnil]

/-- There are no more items than bytes. -/
theorem items_length_le (d : Decoder) : d.items.length ≤ d.rest.length := by
  rw [items, drain, take_eq, List.length_take]
  exact Nat.min_le_left _ _

theorem drain_eq (d : Decoder) : d.drain = (d.items, d.after d.items.length) := by
  refine Prod.ext rfl ?_
  rw [drain, take_eq, ← after_min, Nat.min_eq_right d.items_length_le]

/-- Nothing is left to read after a fault. -/
theorem rest_of_fault {fault : Fault} (h : d.step = some (.error fault, d')) : d'.rest = [] := by
  obtain ⟨policy, pc, bytes⟩ := d
  cases bytes with
  | nil => cases h
  | cons opcode rest =>
    cases front policy opcode rest with
    | unassigned refused =>
      rw [step_unassigned refused] at h
      cases h
      rfl
    | truncated accepted cut =>
      rw [step_truncated accepted cut] at h
      cases h
      rfl
    | instruction accepted full =>
      rw [step_instruction accepted full] at h
      cases h

theorem items_of_rest_nil (h : d.rest = []) : d.items = [] := by
  apply List.eq_nil_of_length_eq_zero
  have hle := d.items_length_le
  rw [h] at hle
  exact Nat.le_zero.mp hle

/-- A fault is the last item. -/
theorem fault_is_last {fault : Fault} (h : d.items[n]? = some (.error fault)) :
    n + 1 = d.items.length := by
  induction n generalizing d with
  | zero =>
    cases hs : d.step with
    | none =>
      rw [items_of_none hs] at h
      cases h
    | some next =>
      obtain ⟨item, d'⟩ := next
      rw [items_of_step hs] at h ⊢
      cases h
      rw [items_of_rest_nil (rest_of_fault hs)]
      rfl
  | succ n ih =>
    cases hs : d.step with
    | none =>
      rw [items_of_none hs] at h
      cases h
    | some next =>
      obtain ⟨item, d'⟩ := next
      rw [items_of_step hs] at h ⊢
      rw [List.getElem?_cons_succ] at h
      rw [List.length_cons, ih h]

/-- As faults come last, it is all the same whether the first or the last one is looked for. -/
theorem collect_eq_gather (d : Decoder) : collect d.items = gather d.items := by
  have hlast (n : Nat) (fault : Fault) : d.items[n]? = some (.error fault) →
      n + 1 = d.items.length := fault_is_last
  generalize d.items = items at hlast
  induction items with
  | nil => rfl
  | cons item items ih =>
    cases item with
    | error fault =>
      have hnil : items = [] := by
        have hlen := hlast 0 fault rfl
        exact List.eq_nil_of_length_eq_zero (Nat.succ.inj hlen).symm
      rw [hnil]
      rfl
    | ok i =>
      have htail := ih fun n fault hn => by
        have hlen := hlast (n + 1) fault (by simpa using hn)
        simpa using hlen
      rw [collect, htail]
      cases items with
      | nil => rfl
      | cons item items =>
        simp only [gather, List.getLast?_cons_cons, List.filterMap_cons, Except.toOption]
        split <;> rfl

end

/-- Whether a decoder is at a place of a code, with nothing or all that follows left to read. -/
def StandsIn (code : Bytes) (d : Decoder) : Prop :=
  d.pc ≤ code.length ∧ (d.rest ≠ [] → d.pc + d.rest.length = code.length)

lemma standsIn_start (policy : Policy) (code : Bytes) : StandsIn code (start policy code) :=
  ⟨Nat.zero_le _, fun _ => Nat.zero_add _⟩

section
variable {code : Bytes} {d d' : Decoder} {item : Item}

/-- A step goes forward, to where its item says. -/
theorem StandsIn.step (h : StandsIn code d) (hs : d.step = some (item, d')) :
    StandsIn code d' ∧ d.pc < d'.pc ∧ d'.pc = landing code item := by
  obtain ⟨policy, pc, bytes⟩ := d
  cases bytes with
  | nil => cases hs
  | cons opcode rest =>
    have hsize : pc + (rest.length + 1) = code.length := h.2 (List.cons_ne_nil _ _)
    cases front policy opcode rest with
    | unassigned refused =>
      rw [step_unassigned refused] at hs
      cases hs
      refine ⟨⟨?_, nofun⟩, Nat.lt_succ_self pc, rfl⟩
      simp only
      omega
    | truncated accepted cut =>
      rw [step_truncated accepted cut] at hs
      cases hs
      refine ⟨⟨?_, nofun⟩, ?_, ?_⟩ <;> simp only [landing] <;> omega
    | instruction accepted full =>
      rw [step_instruction accepted full] at hs
      cases hs
      rw [List.length_append] at hsize
      refine ⟨⟨?_, fun _ => ?_⟩, ?_, rfl⟩ <;> simp only <;> omega

theorem StandsIn.after (h : StandsIn code d) (n : Nat) :
    StandsIn code (d.after n) ∧ d.pc ≤ (d.after n).pc := by
  induction n generalizing d with
  | zero => exact ⟨h, Nat.le_refl _⟩
  | succ n ih =>
    cases hs : d.step with
    | none =>
      rw [after_of_none hs]
      exact ⟨h, Nat.le_refl _⟩
    | some next =>
      obtain ⟨item, d'⟩ := next
      obtain ⟨h', hlt, -⟩ := h.step hs
      rw [after_of_step hs]
      exact ⟨(ih h').1, Nat.le_trans (Nat.le_of_lt hlt) (ih h').2⟩

/-- Each item leaves the decoder where it says. -/
theorem StandsIn.landing (h : StandsIn code d) {n : Nat} (hn : d.items[n]? = some item) :
    (d.after (n + 1)).pc = landing code item := by
  induction n generalizing d with
  | zero =>
    cases hs : d.step with
    | none =>
      rw [items_of_none hs] at hn
      cases hn
    | some next =>
      obtain ⟨item', d'⟩ := next
      rw [items_of_step hs] at hn
      cases hn
      rw [after_of_step hs]
      exact (h.step hs).2.2
  | succ n ih =>
    cases hs : d.step with
    | none =>
      rw [items_of_none hs] at hn
      cases hn
    | some next =>
      obtain ⟨item', d'⟩ := next
      rw [items_of_step hs, List.getElem?_cons_succ] at hn
      rw [after_of_step hs]
      exact ih (h.step hs).1 hn

theorem StandsIn.place (h : StandsIn code d) (hpc : d.pc = 0) {n : Nat} (hn : n ≤ d.items.length) :
    (d.after n).pc = place code d.items n := by
  cases n with
  | zero => exact hpc
  | succ n =>
    have hitem : d.items[n]? = some d.items[n] := List.getElem?_eq_getElem hn
    rw [h.landing hitem, Decoder.place, hitem]
    rfl

end

section
variable {top : Nat} {others : List Nat}

/-- A command does to decoders what it does to the indices that they stand for. -/
theorem run_after (d : Decoder) (command : Command) (htop : top ≤ d.items.length)
    (others : List Nat) :
    let ran := command.run (d.after top) (others.map d.after)
    let indexed := command.onIndices d.items top others
    ran.1.value = indexed.1 ∧ ran.2 = (d.after indexed.2.1, indexed.2.2.map d.after) := by
  have hend : top + (d.items.length - top) = d.items.length := by omega
  have hdrain : (d.after top).drain = (d.items.drop top, d.after d.items.length) := by
    rw [drain_eq, items_after, List.length_drop, after_after, hend]
  cases command with
  | next =>
    simp only [Command.run, Command.onIndices, next, take_eq, items_after, after_after]
    refine ⟨by simp, ?_⟩
    split
    · rfl
    · have hlast : top = d.items.length := by omega
      rw [← after_min, ← hlast, Nat.min_eq_right (Nat.le_succ top)]
  | nth skipped =>
    simp only [Command.run, Command.onIndices, nth, take_eq, items_after, after_after]
    refine ⟨by simp, ?_⟩
    rw [after_min, Nat.add_assoc]
  | rest => simp [Command.run, Command.onIndices, hdrain, items_after]
  | count => simp [Command.run, Command.onIndices, hdrain, items_after]
  | collect =>
    have hcollect := collect_eq_gather (d.after top)
    simp only [items_after] at hcollect
    simp [Command.run, Command.onIndices, hdrain, items_after, hcollect]
  | pc => exact ⟨rfl, rfl⟩
  | fork => exact ⟨rfl, rfl⟩
  | drop =>
    cases others with
    | nil => exact ⟨rfl, rfl⟩
    | cons i others => exact ⟨rfl, rfl⟩

/-- A command that keeps the top index on top moves it forward, if at all, and not beyond the end. -/
theorem onIndices_top (items : List Item) (command : Command) (hcommand : command ≠ .drop)
    (htop : top ≤ items.length) (others : List Nat) :
    let moved := (command.onIndices items top others).2.1
    top ≤ moved ∧ moved ≤ items.length := by
  cases command with
  | next =>
    simp only [Command.onIndices]
    split <;> omega
  | nth skipped =>
    simp only [Command.onIndices]
    omega
  | rest | count | collect => exact ⟨htop, Nat.le_refl _⟩
  | pc | fork => exact ⟨Nat.le_refl _, htop⟩
  | drop => exact absurd rfl hcommand

/-- No index on the stack ever leaves the list. -/
theorem onIndices_le (items : List Item) (command : Command) (htop : top ≤ items.length)
    (hothers : ∀ i ∈ others, i ≤ items.length) :
    let indexed := command.onIndices items top others
    indexed.2.1 ≤ items.length ∧ ∀ i ∈ indexed.2.2, i ≤ items.length := by
  cases command with
  | next => exact ⟨(onIndices_top items .next nofun htop others).2, hothers⟩
  | nth skipped => exact ⟨(onIndices_top items (.nth skipped) nofun htop others).2, hothers⟩
  | rest | count | collect => exact ⟨Nat.le_refl _, hothers⟩
  | pc => exact ⟨htop, hothers⟩
  | fork => exact ⟨htop, List.forall_mem_cons.mpr ⟨htop, hothers⟩⟩
  | drop =>
    cases others with
    | nil => exact ⟨htop, hothers⟩
    | cons i others => exact List.forall_mem_cons.mp hothers

/-- By induction on the commands, as long as all indices are within the list. -/
theorem session_after {code : Bytes} {d : Decoder} (hd : StandsIn code d) (hpc : d.pc = 0)
    (commands : List Command) (htop : top ≤ d.items.length)
    (hothers : ∀ i ∈ others, i ≤ d.items.length) :
    (session commands (d.after top) (others.map d.after)).map Logged.value =
      indexSession code d.items commands top others := by
  induction commands generalizing top others with
  | nil => rfl
  | cons command commands ih =>
    obtain ⟨hanswer, hdecoders⟩ := run_after d command htop others
    obtain ⟨hle, hles⟩ := onIndices_le d.items command htop hothers
    simp only [session, indexSession, List.map_cons, Logged.value_map, hanswer, hdecoders,
      ih hle hles, hd.place hpc hle]

end

/-- Once nothing or a fault was yielded, nothing more is. -/
theorem take_of_spent (d : Decoder) (h : ∀ instruction, d.next.1 ≠ some (.ok instruction))
    (more : Nat) : d.next.2.take more = ([], d.next.2) := by
  have hnil : (d.after 1).items = [] := by
    rw [items_after]
    cases hitems : d.items with
    | nil => rfl
    | cons item items =>
      have hnext : d.next.1 = some item := by simp [next, take_eq, hitems]
      cases item with
      | ok i => exact absurd hnext (h i)
      | error fault =>
        have hlast : 0 + 1 = d.items.length := fault_is_last (by rw [hitems]; rfl)
        rw [hitems, List.length_cons] at hlast
        exact List.eq_nil_of_length_eq_zero (Nat.succ.inj hlast).symm
  have htake : d.next.2 = d.after 1 := rfl
  rw [htake, take_eq, hnil, List.take_nil, after_of_items_nil hnil]

/-- A stack of decoders answers every sequence of commands as a stack of indices into the items of
the code does. There are no more items than bytes, and a fault is the last of them. No command takes
the place of a decoder back or beyond the code, and after a fault or the end a decoder yields nothing
and stays where it is. -/
theorem session_follows_indices (policy : Policy) (code : Bytes) :
    let items := (start policy code).items
    items.length ≤ code.length ∧
    (∀ n fault, items[n]? = some (.error fault) → n + 1 = items.length) ∧
    (∀ commands, (session commands (start policy code) []).map Logged.value =
      indexSession code items commands 0 []) ∧
    (∀ (command : Command) (top : Nat) (others : List Nat),
      top ≤ items.length → command ≠ .drop →
        let moved := (command.onIndices items top others).2.1
        place code items top ≤ place code items moved ∧ place code items moved ≤ code.length) ∧
    ∀ n, let d := (start policy code).after n
      (∀ instruction, d.next.1 ≠ some (.ok instruction)) →
        ∀ more, d.next.2.take more = ([], d.next.2) := by
  have hd := standsIn_start policy code
  refine ⟨items_length_le _, fun n fault => fault_is_last, fun commands => ?_, ?_, ?_⟩
  · have hnone : ∀ i ∈ ([] : List Nat), i ≤ (start policy code).items.length := nofun
    exact session_after hd rfl commands (Nat.zero_le _) hnone
  · intro command top others htop hcommand moved
    obtain ⟨hle, hmoved⟩ := onIndices_top _ command hcommand htop others
    obtain ⟨k, hk⟩ := Nat.exists_eq_add_of_le hle
    rw [← hd.place rfl htop, ← hd.place rfl hmoved]
    refine ⟨?_, (hd.after moved).1.1⟩
    rw [hk, ← after_after]
    exact ((hd.after top).1.after k).2
  · exact fun n => take_of_spent _

example : (session [.next, .fork, .rest, .drop, .next] (start .sentinel [0x00, 0x62, 0xAA]) []).map
    (fun answer => answer.value.1) = [1, 1, 3, 1, 3] := by decide

end EvmListing.Decoder
