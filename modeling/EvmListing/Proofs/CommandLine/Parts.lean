import EvmListing.CommandLine
import EvmListing.Proofs.Size
import Mathlib.Data.List.Perm.Basic
import Mathlib.Data.Option.Basic

/-! What a command line asks for, part by part. Each part is taken by itself, so that the order of
parts does not matter, except that of two values for one option the later counts. -/
namespace EvmListing.CommandLine

/-- One thing that arguments say: an option with its value, if it stands there, or another argument. -/
inductive Part where
  | help
  | json
  | keepMetadata
  | strict
  | window (value : Option String)
  | settings (path : Option String)
  | unknown (option : String)
  | input (text : String)
  deriving DecidableEq, Repr

/-- An argument that takes no value. -/
def Part.ofArgument (argument : String) : Part :=
  if argument = "-h" ∨ argument = "--help" then .help
  else if argument = "--json" then .json
  else if argument = "--keep-metadata" then .keepMetadata
  else if argument = "--strict" then .strict
  else if isOption argument then .unknown argument
  else .input argument

/-- The parts of a command line from left to right. Two options take the argument after them as their
value, whatever it looks like. -/
def parts : List String → List Part
  | [] => []
  | ["--metadata-window"] => [.window none]
  | "--metadata-window" :: value :: rest => .window (some value) :: parts rest
  | ["--config"] => [.settings none]
  | "--config" :: path :: rest => .settings (some path) :: parts rest
  | argument :: rest => .ofArgument argument :: parts rest

example : parts ["--config", "--help", "-h"] = [.settings (some "--help"), .help] := by decide

/-- Whether nothing can be done about a part behind other ones. -/
inductive Part.Offends (before : List Part) : Part → Prop
  | unknown (option : String) : Offends before (.unknown option)
  | windowMissing : Offends before (.window none)
  | window {value : String} (h : ∀ n, ¬Size.Written value n) : Offends before (.window (some value))
  | settingsMissing : Offends before (.settings none)
  | input (text : String) {first : String} (h : .input first ∈ before) : Offends before (.input text)

/-- Whether no part offends behind those in front of it. -/
def Clean (ps : List Part) : Prop :=
  ∀ before p after, ps = before ++ p :: after → ¬p.Offends before

def Part.input? : Part → Option String
  | input text => some text
  | _ => none

def Part.window? : Part → Option String
  | window value => value
  | _ => none

def Part.settings? : Part → Option String
  | settings path => path
  | _ => none

/-- The input of each part that is one. -/
def inputs (ps : List Part) : List String := ps.filterMap Part.input?

/-- The window given last. -/
def lastWindow (ps : List Part) : Option String := (ps.filterMap Part.window?).getLast?

/-- The settings file given last. -/
def lastSettings (ps : List Part) : Option String := (ps.filterMap Part.settings?).getLast?

namespace Flags

/-- What a part that does not offend does to the flags read before it. -/
inductive Takes (flags : Flags) : Part → Flags → Prop
  | json : Takes flags .json { flags with json := true }
  | keepMetadata : Takes flags .keepMetadata { flags with keepMetadata := true }
  | strict : Takes flags .strict { flags with strict := true }
  | window {value : String} {n : Nat} (h : Size.ofText value = .ok n) :
      Takes flags (.window (some value)) { flags with window := some n }
  | settings (path : String) :
      Takes flags (.settings (some path)) { flags with settingsPath := some path }
  | input {text : String} (h : flags.input = none) :
      Takes flags (.input text) { flags with input := some text }

/-- How a part that offends is refused. -/
inductive Refuses (flags : Flags) : Part → Fault → Prop
  | unknown (option : String) : Refuses flags (.unknown option) (.unknownOption option)
  | windowMissing : Refuses flags (.window none) (.valueMissing "--metadata-window")
  | window {value : String} {fault : Size.Fault} (h : Size.ofText value = .error fault) :
      Refuses flags (.window (some value)) (.invalidWindow value fault)
  | settingsMissing : Refuses flags (.settings none) (.valueMissing "--config")
  | input {text : String} (h : flags.input ≠ none) : Refuses flags (.input text) .secondInput

/-- A reading of parts, with one rule for each thing that can come next. -/
inductive Reads : Flags → List Part → Except Fault (Option Flags) → Prop
  | finished (flags : Flags) : Reads flags [] (.ok (some flags))
  | help (flags : Flags) (ps : List Part) : Reads flags (.help :: ps) (.ok none)
  | fault {flags : Flags} {p : Part} {fault : Fault} (h : flags.Refuses p fault) (ps : List Part) :
      Reads flags (p :: ps) (.error fault)
  | part {flags flags' : Flags} {p : Part} {ps : List Part} {result : Except Fault (Option Flags)}
      (h : flags.Takes p flags') (more : Reads flags' ps result) : Reads flags (p :: ps) result

/-- An argument that is none of the words known is an option by its form or an input. -/
lemma parts_other {argument : String} {rest : List String} (hh : argument ≠ "-h")
    (hhelp : argument ≠ "--help") (hjson : argument ≠ "--json")
    (hkeep : argument ≠ "--keep-metadata") (hstrict : argument ≠ "--strict")
    (hwindow : argument = "--metadata-window" → rest = [] → False)
    (hwindow' : ∀ value more, argument = "--metadata-window" → rest = value :: more → False)
    (hsettings : argument = "--config" → rest = [] → False)
    (hsettings' : ∀ path more, argument = "--config" → rest = path :: more → False) :
    parts (argument :: rest) =
      (if isOption argument then .unknown argument else .input argument) :: parts rest := by
  have hpart : Part.ofArgument argument =
      if isOption argument then .unknown argument else .input argument := by
    simp only [Part.ofArgument, hh, hhelp, hjson, hkeep, hstrict, or_self, if_false]
  rw [← hpart, parts] <;> assumption

/-- The reader of arguments reads their parts. -/
theorem reads_read (flags : Flags) (arguments : List String) :
    Reads flags (parts arguments) (flags.read arguments) := by
  fun_induction read flags arguments with
  | case1 flags => exact .finished flags
  | case2 flags rest => exact .help flags (parts rest)
  | case3 flags rest => exact .help flags (parts rest)
  | case4 flags rest ih => exact .part .json ih
  | case5 flags rest ih => exact .part .keepMetadata ih
  | case6 flags rest ih => exact .part .strict ih
  | case7 flags => exact .fault .windowMissing []
  | case8 flags value rest n hn ih => exact .part (.window hn) ih
  | case9 flags value rest fault hfault => exact .fault (.window hfault) (parts rest)
  | case10 flags => exact .fault .settingsMissing []
  | case11 flags path rest ih => exact .part (.settings path) ih
  | case12 flags argument rest hh hhelp hjson hkeep hstrict hw hw' hs hs' hoption =>
    rw [parts_other hh hhelp hjson hkeep hstrict hw hw' hs hs', if_pos hoption]
    exact .fault (.unknown argument) (parts rest)
  | case13 flags argument rest hh hhelp hjson hkeep hstrict hw hw' hs hs' hoption hinput =>
    rw [parts_other hh hhelp hjson hkeep hstrict hw hw' hs hs', if_neg hoption]
    exact .fault (.input (Option.isSome_iff_ne_none.mp hinput)) (parts rest)
  | case14 flags argument rest hh hhelp hjson hkeep hstrict hw hw' hs hs' hoption hinput ih =>
    rw [parts_other hh hhelp hjson hkeep hstrict hw hw' hs hs', if_neg hoption]
    exact .part (.input (Option.not_isSome_iff_eq_none.mp hinput)) ih

end Flags

section
variable {ps : List Part} {p : Part}

lemma clean_nil : Clean [] := by
  rintro before p after h
  simp at h

lemma clean_concat : Clean (ps ++ [p]) ↔ Clean ps ∧ ¬p.Offends ps := by
  constructor
  · intro h
    refine ⟨fun before q after hps => h before q (after ++ [p]) ?_, h ps p [] rfl⟩
    rw [hps, List.append_assoc, List.cons_append]
  · rintro ⟨h, hp⟩ before q after hps
    obtain rfl | ⟨after, last, rfl⟩ := List.eq_nil_or_concat after
    · obtain ⟨rfl, hq⟩ := List.append_inj' hps rfl
      cases hq
      exact hp
    · rw [List.concat_eq_append, ← List.cons_append, ← List.append_assoc] at hps
      exact h before q after (List.append_inj' hps rfl).1

@[simp] theorem inputs_concat (ps : List Part) (p : Part) :
    inputs (ps ++ [p]) = inputs ps ++ p.input?.toList := by
  cases hp : p.input? <;> simp [inputs, hp]

@[simp] theorem lastWindow_concat (ps : List Part) (p : Part) :
    lastWindow (ps ++ [p]) = p.window?.or (lastWindow ps) := by
  cases hp : p.window? <;> simp [lastWindow, hp]

@[simp] theorem lastSettings_concat (ps : List Part) (p : Part) :
    lastSettings (ps ++ [p]) = p.settings?.or (lastSettings ps) := by
  cases hp : p.settings? <;> simp [lastSettings, hp]

lemma mem_inputs {text : String} : text ∈ inputs ps ↔ .input text ∈ ps := by
  rw [inputs, List.mem_filterMap]
  constructor
  · rintro ⟨q, hq, htext⟩
    cases q with
    | input t =>
      cases htext
      exact hq
    | _ => cases htext
  · exact fun h => ⟨_, h, rfl⟩

end

namespace Flags

/-- What flags say once parts have been read: each is about the parts of one kind. -/
structure Says (ps : List Part) (flags : Flags) : Prop where
  clean : Clean ps
  help : .help ∉ ps
  input : inputs ps = flags.input.toList
  json : flags.json = true ↔ .json ∈ ps
  keepMetadata : flags.keepMetadata = true ↔ .keepMetadata ∈ ps
  strict : flags.strict = true ↔ .strict ∈ ps
  window : Option.Rel Size.Written (lastWindow ps) flags.window
  settings : flags.settingsPath = lastSettings ps

section
variable {ps : List Part} {p : Part} {flags flags' : Flags} {fault : Fault}

lemma says_nil : Says [] {} where
  clean := clean_nil
  help := List.not_mem_nil
  input := rfl
  json := by simp
  keepMetadata := by simp
  strict := by simp
  window := .none
  settings := rfl

lemma Says.offends_of_refuses (h : Says ps flags) (hp : flags.Refuses p fault) : p.Offends ps := by
  cases hp with
  | unknown option => exact .unknown option
  | windowMissing => exact .windowMissing
  | @window value fault hfault =>
    refine .window fun n hn => ?_
    rw [← Size.ofText_eq_ok_iff, hfault] at hn
    cases hn
  | settingsMissing => exact .settingsMissing
  | @input text hinput =>
    obtain ⟨first, hfirst⟩ := Option.ne_none_iff_exists'.mp hinput
    exact .input text (mem_inputs.mp (by rw [h.input, hfirst]; exact List.mem_singleton_self first))

lemma Says.not_offends_of_takes (h : Says ps flags) (hp : flags.Takes p flags') :
    ¬p.Offends ps := by
  intro hoffends
  cases hp with
  | json | keepMetadata | strict | settings => cases hoffends
  | @window value n hn =>
    cases hoffends with
    | window hnone => exact hnone n (Size.ofText_eq_ok_iff.mp hn)
  | @input text hinput =>
    cases hoffends with
    | @input _ first hfirst =>
      have hmem := mem_inputs.mpr hfirst
      rw [h.input, hinput] at hmem
      cases hmem

/-- One more part leaves the flags about other parts as they are. -/
lemma Says.takes (h : Says ps flags) (hp : flags.Takes p flags') : Says (ps ++ [p]) flags' := by
  have hclean : Clean (ps ++ [p]) := clean_concat.mpr ⟨h.clean, h.not_offends_of_takes hp⟩
  obtain ⟨-, help, input, json, keepMetadata, strict, window, settings⟩ := h
  cases hp with
  | window hn =>
    rw [Size.ofText_eq_ok_iff] at hn
    constructor <;> simp_all [Part.input?, Part.window?, Part.settings?]
  | _ => constructor <;> simp_all [Part.input?, Part.window?, Part.settings?]

end

/-- What parts amount to: flags, unless help is asked for or something is amiss before. -/
inductive Meant (ps : List Part) : Except Fault (Option Flags) → Prop
  | flags {flags : Flags} (h : Says ps flags) : Meant ps (.ok (some flags))
  | help {before after : List Part} (hps : ps = before ++ .help :: after) (h : Clean before) :
      Meant ps (.ok none)
  | fault {before after : List Part} {p : Part} (hps : ps = before ++ p :: after)
      (hhelp : .help ∉ before) (hp : p.Offends before) (fault : Fault) : Meant ps (.error fault)

/-- By induction on the reading, with the parts read before in front. -/
lemma Reads.meant {flags : Flags} {ps : List Part} {result : Except Fault (Option Flags)}
    (h : Reads flags ps result) {before : List Part} (hbefore : Says before flags) :
    Meant (before ++ ps) result := by
  induction h generalizing before with
  | finished flags =>
    rw [List.append_nil]
    exact .flags hbefore
  | help flags ps => exact .help rfl hbefore.clean
  | fault hp ps => exact .fault rfl hbefore.help (hbefore.offends_of_refuses hp) _
  | part hp more ih =>
    have hmeant := ih (hbefore.takes hp)
    rwa [List.append_assoc, List.singleton_append] at hmeant

theorem meant_read (arguments : List String) : Meant (parts arguments) (read {} arguments) :=
  (reads_read {} arguments).meant says_nil

end Flags

/-- Of a request for help and a part that offends only one can come first. -/
lemma not_offends_of_help {ps before before' after after' : List Part} {p : Part}
    (hps : ps = before ++ .help :: after) (hclean : Clean before)
    (hps' : ps = before' ++ p :: after') (hhelp : .help ∉ before') : ¬p.Offends before' := by
  intro hp
  have hne : p ≠ .help := by
    rintro rfl
    cases hp
  obtain ⟨between, hbefore, hrest⟩ | ⟨between, hbefore, hrest⟩ :=
    List.append_eq_append_iff.mp (hps.symm.trans hps')
  · cases between with
    | nil => exact hne (List.cons.inj hrest).1.symm
    | cons q between =>
      refine hhelp ?_
      rw [hbefore, (List.cons.inj hrest).1]
      exact List.mem_append_right before List.mem_cons_self
  · cases between with
    | nil => exact hne (List.cons.inj hrest).1
    | cons q between =>
      refine hclean before' p between ?_ hp
      rw [hbefore, (List.cons.inj hrest).1]

namespace Flags
variable {arguments : List String}

theorem read_eq_none_iff : read {} arguments = .ok none ↔
    ∃ before after, parts arguments = before ++ .help :: after ∧ Clean before := by
  have hmeant := meant_read arguments
  constructor
  · intro h
    rw [h] at hmeant
    cases hmeant with
    | help hps hclean => exact ⟨_, _, hps, hclean⟩
  · rintro ⟨before, after, hps, hclean⟩
    generalize read {} arguments = result at hmeant
    cases hmeant with
    | flags h =>
      refine absurd ?_ h.help
      rw [hps]
      exact List.mem_append_right before List.mem_cons_self
    | help => rfl
    | fault hps' hhelp hp => exact absurd hp (not_offends_of_help hps hclean hps' hhelp)

/-- Parts without offence or request for help are read to the end. -/
theorem exists_read_eq_some (hclean : Clean (parts arguments)) (hhelp : .help ∉ parts arguments) :
    ∃ flags, read {} arguments = .ok (some flags) ∧ Says (parts arguments) flags := by
  have hmeant := meant_read arguments
  generalize read {} arguments = result at hmeant ⊢
  cases hmeant with
  | flags h => exact ⟨_, rfl, h⟩
  | help hps =>
    refine absurd ?_ hhelp
    rw [hps]
    exact List.mem_append_right _ List.mem_cons_self
  | fault hps _ hp => exact absurd hp (hclean _ _ _ hps)

end Flags
end EvmListing.CommandLine
