import EvmListing.Proofs.Metadata.Removal
import Mathlib.Algebra.Ring.Nat

/-! Splitting again and again what the split before left. Every step takes some bytes off the end, so
the steps come to an end, and all that was taken off can be put back. -/
namespace EvmListing.Metadata

/-- A step: what it leaves of a code, what it takes off the end, and the record of that. -/
structure Peel where
  runtime : Bytes
  removed : Bytes
  record : Metadata

/-- The answer of the split that a step is. -/
def Peel.answer (p : Peel) : Except Fault (Bytes × Option Metadata) := .ok (p.runtime, some p.record)

/-- Steps one after the other, from a code to what they leave of it. There may be more to come. -/
inductive Peels (scan : Scan) : Bytes → List Peel → Bytes → Prop
  | none {code : Bytes} : Peels scan code [] code
  | more {code runtime removed last : Bytes} {m : Metadata} {peels : List Peel}
      (first : split scan code = .ok (runtime, some m)) (parts : code = runtime ++ removed)
      (rest : Peels scan runtime peels last) : Peels scan code (⟨runtime, removed, m⟩ :: peels) last

/-- Whether no step leads on from a code: a split leaves it whole or fails. -/
def Ends (scan : Scan) (code : Bytes) : Prop :=
  split scan code = .ok (code, none) ∨ ∃ fault, split scan code = .error fault

section
variable {scan : Scan} {code runtime last : Bytes} {m : Metadata} {peels : List Peel}

/-- What a split takes off is as long as the record says, and not shorter than a length field and the
least map. -/
lemma split_removes (h : split scan code = .ok (runtime, some m)) :
    ∃ removed, code = runtime ++ removed ∧ m.length = removed.length ∧ 3 ≤ removed.length := by
  obtain ⟨payload, field, hremoved⟩ := split_ok h
  obtain ⟨⟨removed, rfl⟩, hshorter⟩ := hremoved.shorter
  have hlength := length_of_split h
  rw [List.length_append] at hlength hshorter
  exact ⟨removed, rfl, Nat.add_left_cancel hlength, by omega⟩

lemma Ends.not_split (h : Ends scan code) : split scan code ≠ .ok (runtime, some m) := by
  intro hsplit
  obtain hwhole | ⟨fault, hfault⟩ := h
  · cases hsplit.symm.trans hwhole
  · cases hsplit.symm.trans hfault

/-- How a code is made up of what steps left of it and what they took off. -/
structure Accounts (code : Bytes) (peels : List Peel) (last : Bytes) : Prop where
  parts : code = last ++ peels.reverse.flatMap Peel.removed
  lengths : (peels.map fun p => p.record.length).sum = code.length - last.length
  fewer : 3 * peels.length + last.length ≤ code.length

theorem Peels.accounts (h : Peels scan code peels last) : Accounts code peels last := by
  induction h with
  | none => exact ⟨(List.append_nil _).symm, (Nat.sub_self _).symm, by simp⟩
  | @more code runtime removed last m peels first parts rest ih =>
    obtain ⟨removed', parts', hlength, hleast⟩ := split_removes first
    obtain rfl := List.append_cancel_left (parts.symm.trans parts')
    have hfewer := ih.fewer
    have hcode : code.length = runtime.length + removed.length := by
      rw [parts, List.length_append]
    refine ⟨?_, ?_, ?_⟩
    · rw [List.reverse_cons, List.flatMap_append, List.flatMap_singleton, ← List.append_assoc,
        ← ih.parts, parts]
    · rw [List.map_cons, List.sum_cons, ih.lengths, hlength]
      omega
    · rw [List.length_cons]
      omega

/-- Steps that cannot go on begin with all other steps from the same code. -/
theorem Peels.front_of_ends {others : List Peel} {last' : Bytes} (h' : Peels scan code others last')
    (h : Peels scan code peels last) (ends : Ends scan last) : others <+: peels := by
  induction h' generalizing peels with
  | none => exact List.nil_prefix
  | @more code runtime removed last' m others first parts rest ih =>
    cases h with
    | none => exact absurd first ends.not_split
    | more first' parts' rest' =>
      cases first.symm.trans first'
      obtain rfl := List.append_cancel_left (parts.symm.trans parts')
      exact List.cons_prefix_cons.mpr ⟨rfl, ih rest'⟩

/-- Peeling that no limit stops comes to a code where it ends. A limit of more than a third of the
bytes does not stop it. -/
theorem exists_peels (scan : Scan) (code : Bytes) :
    ∃ peels last, Peels scan code peels last ∧ Ends scan last ∧
      ∀ limit, code.length < 3 * limit →
        peel scan limit code = peels.map Peel.answer ++ [split scan last] := by
  induction hn : code.length using Nat.strongRecOn generalizing code with
  | ind n ih =>
    subst hn
    have hlimit {limit : Nat} (h : code.length < 3 * limit) : ∃ k, limit = k + 1 :=
      Nat.exists_eq_succ_of_ne_zero (by omega)
    cases hsplit : split scan code with
    | error fault =>
      refine ⟨[], code, .none, .inr ⟨fault, hsplit⟩, fun limit h => ?_⟩
      obtain ⟨limit, rfl⟩ := hlimit h
      rw [peel, hsplit]
      rfl
    | ok cut =>
      obtain ⟨runtime, found⟩ := cut
      cases found with
      | none =>
        obtain ⟨rfl, -⟩ := split_ok hsplit
        refine ⟨[], runtime, .none, .inl hsplit, fun limit h => ?_⟩
        obtain ⟨limit, rfl⟩ := hlimit h
        rw [peel, hsplit]
        rfl
      | some m =>
        obtain ⟨removed, parts, -, hleast⟩ := split_removes hsplit
        have hlength : code.length = runtime.length + removed.length := by
          rw [parts, List.length_append]
        obtain ⟨peels, last, hpeels, ends, hpeel⟩ := ih runtime.length (by omega) runtime rfl
        refine ⟨_, last, .more hsplit parts hpeels, ends, fun limit h => ?_⟩
        obtain ⟨limit, rfl⟩ := hlimit h
        rw [peel, hsplit, List.map_cons, List.cons_append, ← hpeel limit (by omega)]
        rfl

/-- Each step takes three bytes or more off the end of a code. So there are at most a third as many
steps as bytes, and they end at a code that is left whole or whose metadata is malformed. What is left
after some steps makes up the code with what they took off, the last of it first. -/
theorem peeling_ends (scan : Scan) (code : Bytes) :
    (∀ peels last, Peels scan code peels last →
      (∀ runtime m, split scan last = .ok (runtime, some m) →
        runtime <+: last ∧ runtime ≠ last ∧ runtime.length + 3 ≤ last.length) ∧
      peels.length ≤ code.length / 3 ∧ code = last ++ peels.reverse.flatMap Peel.removed ∧
      (peels.map fun p => p.record.length).sum = code.length - last.length) ∧
    ∃ peels last, Peels scan code peels last ∧
      (split scan last = .ok (last, none) ∨
        ∃ detail, (split scan last).mapError Fault.toError = .error (.malformedMetadata detail)) ∧
      (∀ others last', Peels scan code others last' → others <+: peels) ∧
      ∀ limit, code.length / 3 < limit →
        peel scan limit code = peels.map Peel.answer ++ [split scan last] := by
  refine ⟨fun peels last h => ⟨fun runtime m hsplit => ?_, ?_, h.accounts.parts, h.accounts.lengths⟩, ?_⟩
  · obtain ⟨removed, rfl, -, hleast⟩ := split_removes hsplit
    rw [List.length_append]
    refine ⟨List.prefix_append runtime removed, ?_, by omega⟩
    rw [ne_eq, List.self_eq_append_right]
    exact List.ne_nil_of_length_pos (by omega)
  · have hfewer := h.accounts.fewer
    omega
  · obtain ⟨peels, last, hpeels, ends, hpeel⟩ := exists_peels scan code
    refine ⟨peels, last, hpeels, ?_, fun others last' h => h.front_of_ends hpeels ends,
      fun limit hlimit => hpeel limit (by omega)⟩
    obtain hwhole | ⟨fault, hfault⟩ := ends
    · exact .inl hwhole
    · exact .inr ⟨fault.message, by rw [hfault]; rfl⟩

end

end EvmListing.Metadata
