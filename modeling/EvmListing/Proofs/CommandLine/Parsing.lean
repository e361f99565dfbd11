import EvmListing.Proofs.CommandLine.Parts
import Mathlib.Data.List.Induction
import Mathlib.Tactic.Tauto

/-! The options that arguments and files amount to. What counts is which parts there are, and of the
values of one option the last; whatever the order, only the settings file named last is read. -/
namespace EvmListing.CommandLine

/-- Whether settings are those of the file named, or the default ones where none is. -/
def LoadsFrom (files : Files) : Option String → Settings → Prop
  | none, file => file = {}
  | some path, file => ∃ text, files.readText path = .ok text ∧ Settings.ofJson text = .ok file

/-- Whether options are what parts ask for on top of settings. -/
structure Options.Follow (ps : List Part) (file : Settings) (options : Options) : Prop where
  input : inputs ps = [options.input]
  json : options.json = true ↔ .json ∈ ps
  stripMetadata : options.settings.stripMetadata = false ↔
    .keepMetadata ∈ ps ∨ file.stripMetadata = false
  window : ∀ value, lastWindow ps = some value →
    ∃ n, Size.Written value n ∧ options.settings.scan = .trailing n
  scan : lastWindow ps = none → options.settings.scan = file.scan
  unassigned : options.settings.unassigned = .reject ↔ .strict ∈ ps ∨ file.unassigned = .reject

theorem fileSettings_eq_ok_iff {files : Files} {path : Option String} {file : Settings} :
    fileSettings files path = .ok file ↔ LoadsFrom files path file := by
  cases path with
  | none => simp [fileSettings, LoadsFrom, eq_comm]
  | some path =>
    simp only [fileSettings, LoadsFrom]
    cases files.readText path with
    | error fault => simp
    | ok text => cases hfile : Settings.ofJson text <;> simp [hfile, Except.mapError]

/-- The options that flags make with the settings in their file. -/
def Flags.options (files : Files) (flags : Flags) : Except Fault (Option Options) :=
  match flags.input with
  | none => .error .inputMissing
  | some input => (fileSettings files flags.settingsPath).map fun file =>
    some { input, json := flags.json, settings := flags.override file }

section
variable {files : Files} {arguments : List String} {flags : Flags} {ps : List Part}

theorem parse_eq (files : Files) (arguments : List String) :
    parse files arguments =
      match Flags.read {} arguments with
      | .error fault => .error fault
      | .ok none => .ok none
      | .ok (some flags) => flags.options files := by
  simp only [parse, Flags.options, bind, Except.bind]
  cases Flags.read {} arguments with
  | error fault => rfl
  | ok found =>
    cases found with
    | none => rfl
    | some flags =>
      dsimp only
      cases flags.input with
      | none => rfl
      | some input => cases fileSettings files flags.settingsPath <;> rfl

lemma Flags.options_ne_none (files : Files) (flags : Flags) : flags.options files ≠ .ok none := by
  unfold options
  split
  · exact nofun
  · cases fileSettings files flags.settingsPath <;> exact nofun

theorem parse_eq_none_iff : parse files arguments = .ok none ↔
    Flags.read {} arguments = .ok none := by
  rw [parse_eq]
  cases Flags.read {} arguments with
  | error fault => simp
  | ok found =>
    cases found with
    | none => simp
    | some flags => simp [flags.options_ne_none files]

/-- Flags that say what parts say make options that follow them. -/
lemma Flags.Says.follow {input : String} (h : Says ps flags) (hinput : flags.input = some input)
    (file : Settings) :
    Options.Follow ps file { input, json := flags.json, settings := flags.override file } where
  input := by rw [h.input, hinput, Option.toList_some]
  json := h.json
  stripMetadata := by
    rw [← h.keepMetadata]
    cases hstrip : file.stripMetadata <;> simp [override, hstrip]
  window value hvalue := by
    have hwindow := h.window
    rw [hvalue] at hwindow
    cases hn : flags.window with
    | none =>
      rw [hn] at hwindow
      cases hwindow
    | some n =>
      rw [hn] at hwindow
      cases hwindow with
      | some hwritten => exact ⟨n, hwritten, by simp [override, hn]⟩
  scan hnone := by
    have hwindow := h.window
    rw [hnone] at hwindow
    cases hn : flags.window with
    | none => simp [override, hn]
    | some n =>
      rw [hn] at hwindow
      cases hwindow
  unassigned := by
    rw [← h.strict]
    cases hstrict : flags.strict <;> simp [override, hstrict]

lemma Options.Follow.unique {file : Settings} {options options' : Options}
    (h : options.Follow ps file) (h' : options'.Follow ps file) : options = options' := by
  obtain ⟨input, json, stripMetadata, scan, unassigned⟩ := options
  obtain ⟨input', json', stripMetadata', scan', unassigned'⟩ := options'
  have hinput : input = input' := List.singleton_inj.mp (h.input.symm.trans h'.input)
  have hjson : json = json' := Bool.eq_iff_iff.mpr (h.json.trans h'.json.symm)
  have hstrip : stripMetadata = stripMetadata' := by
    have hiff := h.stripMetadata.trans h'.stripMetadata.symm
    cases stripMetadata <;> cases stripMetadata' <;> simp_all
  have hunassigned : unassigned = unassigned' := by
    have hiff := h.unassigned.trans h'.unassigned.symm
    cases unassigned <;> cases unassigned' <;> simp_all
  have hscan : scan = scan' := by
    cases hwindow : lastWindow ps with
    | none => exact (h.scan hwindow).trans (h'.scan hwindow).symm
    | some value =>
      obtain ⟨n, hn, hscan⟩ := h.window value hwindow
      obtain ⟨m, hm, hscan'⟩ := h'.window value hwindow
      rw [hn.unique hm] at hscan
      exact hscan.trans hscan'.symm
  rw [hinput, hjson, hstrip, hunassigned, hscan]

/-- Flags make options if there is an input and their file can be read. -/
theorem Flags.Says.options_eq_ok_iff (h : Says ps flags) {options : Options} :
    flags.options files = .ok (some options) ↔
      ∃ file, LoadsFrom files (lastSettings ps) file ∧ options.Follow ps file := by
  rw [Flags.options, ← h.settings]
  constructor
  · intro hoptions
    cases hinput : flags.input with
    | none =>
      rw [hinput] at hoptions
      cases hoptions
    | some input =>
      rw [hinput] at hoptions
      cases hfile : fileSettings files flags.settingsPath with
      | error fault =>
        rw [hfile] at hoptions
        cases hoptions
      | ok file =>
        rw [hfile] at hoptions
        cases hoptions
        exact ⟨file, fileSettings_eq_ok_iff.mp hfile, h.follow hinput file⟩
  · rintro ⟨file, hfile, hfollow⟩
    have hinput : flags.input = some options.input := by
      have hinputs := hfollow.input
      rwa [h.input, Option.toList_eq_singleton_iff] at hinputs
    rw [hinput, fileSettings_eq_ok_iff.mpr hfile, hfollow.unique (h.follow hinput file)]
    rfl

/-- There are options if and only if parts and files provide for them. -/
theorem parse_eq_some_iff {options : Options} : parse files arguments = .ok (some options) ↔
    .help ∉ parts arguments ∧ Clean (parts arguments) ∧
      ∃ file, LoadsFrom files (lastSettings (parts arguments)) file ∧
        options.Follow (parts arguments) file := by
  rw [parse_eq]
  constructor
  · intro h
    have hmeant := Flags.meant_read arguments
    generalize Flags.read {} arguments = result at h hmeant
    cases hmeant with
    | flags hsaid => exact ⟨hsaid.help, hsaid.clean, hsaid.options_eq_ok_iff.mp h⟩
    | help | fault => cases h
  · rintro ⟨hhelp, hclean, hfile⟩
    obtain ⟨flags, hread, hsaid⟩ := Flags.exists_read_eq_some hclean hhelp
    rw [hread]
    exact hsaid.options_eq_ok_iff.mpr hfile

/-- One input among the parts is enough to follow them. -/
lemma exists_follow {input : String} (hclean : Clean (parts arguments))
    (hhelp : .help ∉ parts arguments) (hinput : inputs (parts arguments) = [input])
    (file : Settings) : ∃ options : Options, options.Follow (parts arguments) file := by
  obtain ⟨flags, -, hsaid⟩ := Flags.exists_read_eq_some hclean hhelp
  rw [hsaid.input, Option.toList_eq_singleton_iff] at hinput
  exact ⟨_, hsaid.follow hinput file⟩

/-- Of all files only the one named last is read. -/
theorem parse_congr {files' : Files}
    (h : ∀ path, lastSettings (parts arguments) = some path → files' path = files path) :
    parse files' arguments = parse files arguments := by
  have hmeant := Flags.meant_read arguments
  rw [parse_eq, parse_eq]
  generalize Flags.read {} arguments = result at hmeant
  cases hmeant with
  | help | fault => rfl
  | @flags flags hsaid =>
    rw [← hsaid.settings] at h
    have hfile : fileSettings files' flags.settingsPath =
        fileSettings files flags.settingsPath := by
      cases hpath : flags.settingsPath with
      | none => rfl
      | some path => simp only [fileSettings, Files.readText, h path hpath]
    simp only [Flags.options, hfile]

end

/-! ## The order of parts -/

section
variable {ps qs : List Part} {p : Part}

lemma Part.offends_iff : p.Offends ps ↔ p.Offends [] ∨ p.input? ≠ none ∧ inputs ps ≠ [] := by
  constructor
  · intro h
    cases h with
    | unknown option => exact .inl (.unknown option)
    | windowMissing => exact .inl .windowMissing
    | window hnone => exact .inl (.window hnone)
    | settingsMissing => exact .inl .settingsMissing
    | input text hfirst => exact .inr ⟨nofun, List.ne_nil_of_mem (mem_inputs.mpr hfirst)⟩
  · rintro (h | ⟨hinput, hne⟩)
    · cases h with
      | unknown option => exact .unknown option
      | windowMissing => exact .windowMissing
      | window hnone => exact .window hnone
      | settingsMissing => exact .settingsMissing
      | input text hfirst => cases hfirst
    · obtain ⟨first, hfirst⟩ := List.exists_mem_of_ne_nil _ hne
      cases p with
      | input text => exact .input text (mem_inputs.mp hfirst)
      | _ => exact absurd rfl hinput

/-- Parts do not offend if none does by itself and at most one is an input. -/
lemma clean_iff : Clean ps ↔ (∀ p ∈ ps, ¬p.Offends []) ∧ (inputs ps).length ≤ 1 := by
  induction ps using List.reverseRecOn with
  | nil => simp [clean_nil, inputs]
  | append_singleton ps p ih =>
    rw [clean_concat, ih, Part.offends_iff, List.forall_mem_append, List.forall_mem_singleton,
      inputs_concat]
    cases p.input? with
    | none =>
      simp only [Option.toList_none, List.append_nil, ne_eq, not_true_eq_false, false_and, or_false]
      exact and_right_comm
    | some text =>
      -- another input offends if there is one before it
      have hfirst : (inputs ps ++ [text]).length ≤ 1 ↔ inputs ps = [] := by
        rw [List.length_append, List.length_singleton, ← List.length_eq_zero_iff]
        omega
      have hle : inputs ps = [] → (inputs ps).length ≤ 1 := fun hnil => by simp [hnil]
      rw [Option.toList_some, hfirst]
      simp only [ne_eq, reduceCtorEq, not_false_eq_true, true_and, not_or, not_not]
      tauto

lemma Clean.perm (h : Clean ps) (hperm : qs.Perm ps) : Clean qs := by
  rw [clean_iff] at h ⊢
  have hlength : (inputs qs).length = (inputs ps).length := (hperm.filterMap _).length_eq
  exact ⟨fun p hp => h.1 p (hperm.mem_iff.mp hp), hlength ▸ h.2⟩

lemma eq_of_rel_written {value : Option String} {m n : Option Nat}
    (hm : Option.Rel Size.Written value m) (hn : Option.Rel Size.Written value n) : m = n := by
  cases hm with
  | none =>
    cases hn
    rfl
  | some hm =>
    cases hn with
    | some hn => rw [hm.unique hn]

/-- Flags only say which parts there are and which values come last. -/
lemma Flags.Says.eq_of_perm {flags flags' : Flags} (h : Says ps flags) (h' : Says qs flags')
    (hperm : qs.Perm ps) (hwindow : lastWindow qs = lastWindow ps)
    (hsettings : lastSettings qs = lastSettings ps) : flags' = flags := by
  obtain ⟨input, json, keepMetadata, window, strict, settingsPath⟩ := flags
  obtain ⟨input', json', keepMetadata', window', strict', settingsPath'⟩ := flags'
  have hinput : input' = input := by
    have hinputs : (inputs qs).Perm (inputs ps) := hperm.filterMap _
    rw [h.input, h'.input] at hinputs
    cases input <;> cases input' <;> simp_all
  have hjson : json' = json :=
    Bool.eq_iff_iff.mpr (h'.json.trans (hperm.mem_iff.trans h.json.symm))
  have hkeep : keepMetadata' = keepMetadata :=
    Bool.eq_iff_iff.mpr (h'.keepMetadata.trans (hperm.mem_iff.trans h.keepMetadata.symm))
  have hstrict : strict' = strict :=
    Bool.eq_iff_iff.mpr (h'.strict.trans (hperm.mem_iff.trans h.strict.symm))
  have hlast : window' = window := eq_of_rel_written (hwindow ▸ h'.window) h.window
  have hpath : settingsPath' = settingsPath :=
    h'.settings.trans (hsettings.trans h.settings.symm)
  rw [hinput, hjson, hkeep, hstrict, hlast, hpath]

end

/-- The order of parts that do not offend only matters for values of one option. -/
theorem parse_perm {files : Files} {arguments arguments' : List String}
    (hclean : Clean (parts arguments)) (hperm : (parts arguments').Perm (parts arguments))
    (hwindow : lastWindow (parts arguments') = lastWindow (parts arguments))
    (hsettings : lastSettings (parts arguments') = lastSettings (parts arguments)) :
    parse files arguments' = parse files arguments := by
  by_cases hhelp : .help ∈ parts arguments
  · have hnone (arguments : List String) (hclean : Clean (parts arguments))
        (hhelp : .help ∈ parts arguments) : parse files arguments = .ok none := by
      obtain ⟨before, after, hps⟩ := List.mem_iff_append.mp hhelp
      refine parse_eq_none_iff.mpr (Flags.read_eq_none_iff.mpr ⟨before, after, hps, ?_⟩)
      intro first p rest hbefore
      exact hclean first p (rest ++ .help :: after) (by rw [hps, hbefore]; simp)
    rw [hnone arguments hclean hhelp,
      hnone arguments' (hclean.perm hperm) (hperm.mem_iff.mpr hhelp)]
  · obtain ⟨flags, hread, hsaid⟩ := Flags.exists_read_eq_some hclean hhelp
    obtain ⟨flags', hread', hsaid'⟩ := Flags.exists_read_eq_some (hclean.perm hperm)
      (fun h => hhelp (hperm.mem_iff.mp h))
    rw [parse_eq, parse_eq, hread, hread', hsaid.eq_of_perm hsaid' hperm hwindow hsettings]

/-- Arguments are understood part by part. Help is given where it is asked for and nothing is amiss
before. Otherwise there are options if and only if no part offends, one is an input and the settings
file named last can be read as settings, and the options are those that all parts together ask for.
Other files are not looked at, and as long as no part offends only the last values for one option
depend on the order. -/
theorem parse_understands_parts (files : Files) (arguments : List String) :
    let ps := parts arguments
    (parse files arguments = .ok none ↔
      ∃ before after, ps = before ++ .help :: after ∧ Clean before) ∧
    ((∃ options, parse files arguments = .ok (some options)) ↔
      .help ∉ ps ∧ Clean ps ∧ (∃ input, inputs ps = [input]) ∧
        ∃ file, LoadsFrom files (lastSettings ps) file) ∧
    (∀ options, parse files arguments = .ok (some options) →
      ∃ file, LoadsFrom files (lastSettings ps) file ∧ ∀ o : Options, o.Follow ps file ↔ o = options) ∧
    (∀ files' : Files, (∀ path, lastSettings ps = some path → files' path = files path) →
      parse files' arguments = parse files arguments) ∧
    ∀ arguments', (parts arguments').Perm ps → lastWindow (parts arguments') = lastWindow ps →
      lastSettings (parts arguments') = lastSettings ps → Clean ps →
        parse files arguments' = parse files arguments := by
  intro ps
  refine ⟨parse_eq_none_iff.trans Flags.read_eq_none_iff, ?_, ?_, fun files' => parse_congr, ?_⟩
  · simp only [parse_eq_some_iff]
    constructor
    · rintro ⟨options, hhelp, hclean, file, hfile, hfollow⟩
      exact ⟨hhelp, hclean, ⟨_, hfollow.input⟩, file, hfile⟩
    · rintro ⟨hhelp, hclean, ⟨input, hinput⟩, file, hfile⟩
      obtain ⟨options, hfollow⟩ := exists_follow hclean hhelp hinput file
      exact ⟨options, hhelp, hclean, file, hfile, hfollow⟩
  · intro options h
    obtain ⟨-, -, file, hfile, hfollow⟩ := parse_eq_some_iff.mp h
    exact ⟨file, hfile, fun o => ⟨fun ho => ho.unique hfollow, fun ho => ho ▸ hfollow⟩⟩
  · intro arguments' hperm hwindow hsettings hclean
    exact parse_perm hclean hperm hwindow hsettings

end EvmListing.CommandLine
