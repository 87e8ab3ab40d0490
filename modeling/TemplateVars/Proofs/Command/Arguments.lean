/-
The command line of an invocation.

* `Invocation.arguments` — one way to ask for an invocation;
* `Arguments.read?_spelled` — options that are written out are read back, and so are the
  words behind them;
* `ofArguments?_arguments` — so each invocation can be asked for, whatever its paths and
  its expression look like;
* `run_of_asked` — a run does what its arguments ask for.

Design notes: a value is attached to its option by a sign and words come after `--`, so
neither is taken for an option.
-/
import TemplateVars.Command.Run

namespace TemplateVars

namespace Arguments

/-! ### Options -/

/-- An option as an argument. -/
def Setting.argument (s : Setting) : String :=
  if s.flag.takesValue then "--" ++ s.flag.name ++ "=" ++ s.value else "--" ++ s.flag.name

/-- Whether an option is known and leaves open what is asked for; one that takes no
value has none. -/
structure Setting.IsPlain (known : List Flag) (s : Setting) : Prop where
  known : s.flag ∈ known
  ends : s.flag.ends = false
  value : s.flag.takesValue = false → s.value = ""

theorem Flag.name_inj {f g : Flag} (h : f.name = g.name) : f = g := by
  cases f <;> cases g <;> first | rfl | exact absurd h (by decide)

theorem Flag.find?_name {known : List Flag} {f : Flag} (h : f ∈ known) :
    known.find? (·.name.toList = f.name.toList) = some f := by
  cases hfind : known.find? (·.name.toList = f.name.toList) with
  | none => simpa using List.find?_eq_none.1 hfind f h
  | some g =>
    have hname := List.find?_some hfind
    rw [decide_eq_true_eq, String.toList_inj] at hname
    rw [Flag.name_inj hname]

theorem Flag.takeWhile_name (f : Flag) :
    f.name.toList.takeWhile (· != '=') = f.name.toList := by
  cases f <;> rfl

theorem Flag.takeWhile_name_append (f : Flag) (value : List Char) :
    (f.name.toList ++ '=' :: value).takeWhile (· != '=') = f.name.toList := by
  cases f <;> rfl

theorem Flag.name_ne_nil (f : Flag) : f.name.toList ≠ [] := by
  cases f <;> decide

theorem word?_named {known : List Flag} {argument : String} {s : List Char} (hs : s ≠ [])
    (h : argument.toList = '-' :: '-' :: s) :
    word? known argument = (named? known s).map fun (settings, pending) =>
      .options settings pending := by
  rw [word?, h]
  cases s with
  | nil => exact absurd rfl hs
  | cons c s => rfl

/-- An option that is written out is read as that option. -/
theorem word?_argument {known : List Flag} {s : Setting} (h : s.IsPlain known) :
    word? known s.argument = some (.options [s] none) := by
  obtain ⟨flag, value⟩ := s
  have hfind := Flag.find?_name h.known
  have hne := flag.name_ne_nil
  cases htakes : flag.takesValue with
  | true =>
    have hnamed : named? known (flag.name.toList ++ '=' :: value.toList) =
        some ([⟨flag, value⟩], none) := by
      simp [named?, Flag.takeWhile_name_append, hfind, htakes]
    rw [word?_named (s := flag.name.toList ++ '=' :: value.toList) (by simp)
      (by simp [Setting.argument, htakes]), hnamed]
    rfl
  | false =>
    obtain rfl : value = "" := h.value htakes
    have hnamed : named? known flag.name.toList = some ([⟨flag, ""⟩], none) := by
      simp [named?, Flag.takeWhile_name, hfind, htakes]
    rw [word?_named hne (by simp [Setting.argument, htakes]), hnamed]
    rfl

/-! ### Levels -/

/-- The level of a subcommand takes options that are written out, and then its words. -/
theorem read?_spelled {verb : Verb} {settings : List Setting} (words : List String)
    (hplain : ∀ s ∈ settings, s.IsPlain (flags (some verb)))
    (hdistinct : settings.Pairwise (·.flag ≠ ·.flag)) {r : Reading}
    (hopen : r.isSettled = false) (hnew : ∀ s ∈ settings, r.has s.flag = false) :
    read? (some verb) r (settings.map Setting.argument ++ "--" :: words) =
      some { r with settings := r.settings ++ settings, words := r.words ++ words } := by
  induction settings generalizing r with
  | nil => simp [read?, word?]
  | cons s settings ih =>
    obtain ⟨hs, hsettings⟩ := List.forall_mem_cons.1 hplain
    obtain ⟨hdiffers, hdistinct⟩ := List.pairwise_cons.1 hdistinct
    obtain ⟨hsnew, hnew⟩ := List.forall_mem_cons.1 hnew
    have hadd : r.addAll? [s] = some { r with settings := r.settings ++ [s] } := by
      simp [Reading.addAll?, Reading.add?, hsnew]
    have hnext : Reading.isSettled { r with settings := r.settings ++ [s] } = false := by
      unfold Reading.isSettled at hopen ⊢
      simp [hopen, hs.ends]
    rw [List.map_cons, List.cons_append, read?, word?_argument hs]
    simp only [hadd, hnext]
    refine (ih hsettings hdistinct hnext fun t ht => ?_).trans (by simp)
    have ht' := hnew t ht
    unfold Reading.has at ht' ⊢
    simp [ht', hdiffers t ht]

/-- The name of a subcommand. -/
def Verb.name : Verb → String
  | vars => "vars"
  | report => "report"
  | check => "check"

theorem Verb.ofName?_name (verb : Verb) : Verb.ofName? verb.name = some verb := by
  cases verb <;> rfl

theorem word?_name (verb : Verb) : word? (flags none) verb.name = some .plain := by
  cases verb <;> rfl

end Arguments

open Arguments

/-- The name of a form. -/
def OutputForm.name : OutputForm → String
  | text => "text"
  | json => "json"

/-! ### Invocations -/

namespace Command

def verb : Command → Verb
  | vars .. => .vars
  | report .. => .report
  | check .. => .check

/-- The options of a command. -/
def settings : Command → List Setting
  | vars _ form => form.toList.map fun form => ⟨.format, form.name⟩
  | report _ form target =>
    (form.toList.map fun form => ⟨.format, form.name⟩) ++ target.toList.map (⟨.output, ·⟩)
  | check _ recursive => if recursive then [⟨.recursive, ""⟩] else []

/-- The one word of a command. -/
def word : Command → String
  | vars expression _ => expression
  | report template _ _ => template
  | check input _ => input

/-- A command with its options and its word. -/
def arguments (c : Command) : List String :=
  c.verb.name :: (c.settings.map Setting.argument ++ ["--", c.word])

theorem settings_plain (c : Command) :
    ∀ s ∈ c.settings, s.IsPlain (flags (some c.verb)) ∧ s.flag ≠ .config := by
  have hformat : ∀ verb, .format ∈ flags (some verb) → ∀ form : Option OutputForm,
      ∀ s ∈ form.toList.map fun form => (⟨.format, form.name⟩ : Setting),
        s.IsPlain (flags (some verb)) ∧ s.flag ≠ .config := by
    intro verb hverb form s hs
    obtain ⟨form, -, rfl⟩ := List.mem_map.1 hs
    exact ⟨⟨hverb, rfl, nofun⟩, nofun⟩
  cases c with
  | vars expression form => exact hformat .vars (by decide) form
  | report template form target =>
    refine List.forall_mem_append.2 ⟨hformat .report (by decide) form, fun s hs => ?_⟩
    obtain ⟨target, -, rfl⟩ := List.mem_map.1 hs
    exact ⟨⟨(by decide : Flag.output ∈ flags (some .report)), rfl, nofun⟩, nofun⟩
  | check input recursive =>
    cases recursive with
    | false => exact nofun
    | true =>
      have hknown : Flag.recursive ∈ flags (some .check) := by decide
      exact List.forall_mem_singleton.2 ⟨⟨hknown, rfl, fun _ => rfl⟩, nofun⟩

theorem settings_distinct (c : Command) : c.settings.Pairwise (·.flag ≠ ·.flag) := by
  cases c with
  | vars expression form => cases form <;> simp [settings]
  | report template form target => cases form <;> cases target <;> simp [settings]
  | check input recursive => cases recursive <;> simp [settings]

/-- The options and the word of a command make the command. -/
theorem command?_settings (c : Command) :
    command? c.verb { settings := c.settings, words := [c.word] } = some c := by
  cases c with
  | vars expression form =>
    cases form with
    | none => rfl
    | some form => cases form <;> rfl
  | report template form target =>
    cases form with
    | none => cases target <;> rfl
    | some form => cases form <;> cases target <;> rfl
  | check input recursive => cases recursive <;> rfl

theorem request?_arguments (config : Option String) (c : Command) :
    request? config c.arguments = some (.run { config, command := some c }) := by
  have hread : read? (some c.verb) {} (c.settings.map Setting.argument ++ ["--", c.word]) =
      some { settings := c.settings, words := [c.word] } :=
    read?_spelled [c.word] (fun s hs => (c.settings_plain s hs).1) c.settings_distinct rfl
      fun _ _ => rfl
  have hhelp : Reading.has { settings := c.settings, words := [c.word] } .help = false := by
    refine List.any_eq_false.2 fun s hs h => ?_
    have hends := (c.settings_plain s hs).1.ends
    rw [of_decide_eq_true h] at hends
    exact nomatch hends
  have hconfig : Reading.value? { settings := c.settings, words := [c.word] } .config = none := by
    refine Option.map_eq_none_iff.2 (List.find?_eq_none.2 fun s hs h => ?_)
    exact (c.settings_plain s hs).2 (of_decide_eq_true h)
  rw [arguments, request?, Verb.ofName?_name]
  simp only [hread, hhelp, command?_settings, hconfig]
  rfl

end Command

/-- An invocation with the path of its configuration file. -/
def Invocation.arguments (i : Invocation) : List String :=
  i.config.toList.map (fun path => Setting.argument ⟨.config, path⟩) ++
    i.command.elim [] Command.arguments

/-- The level of the program ends at a subcommand. -/
theorem Arguments.read?_command (r : Reading) (c : Option Command) :
    read? none r (c.elim [] Command.arguments) =
      some { r with rest := c.elim r.rest Command.arguments } := by
  cases c with
  | none => rfl
  | some c =>
    rw [Option.elim_some, Command.arguments, read?, word?_name]
    rfl

theorem Arguments.request?_command (config : Option String) (c : Option Command) :
    request? config (c.elim [] Command.arguments) = some (.run { config, command := c }) := by
  cases c with
  | none => rfl
  | some c => exact c.request?_arguments config

/-- The arguments of an invocation ask for it. -/
theorem ofArguments?_arguments (i : Invocation) :
    Request.ofArguments? i.arguments = some (.run i) := by
  obtain ⟨config, command⟩ := i
  cases config with
  | none =>
    have hread : read? none {} (Invocation.arguments ⟨none, command⟩) =
        some { rest := command.elim [] Command.arguments } := read?_command {} command
    rw [Request.ofArguments?, hread]
    exact request?_command none command
  | some path =>
    have hword : word? (flags none) (Setting.argument ⟨.config, path⟩) =
        some (.options [⟨.config, path⟩] none) :=
      word?_argument ⟨(by decide : Flag.config ∈ flags none), rfl, nofun⟩
    have hread : read? none {} (Invocation.arguments ⟨some path, command⟩) =
        some { settings := [⟨.config, path⟩], rest := command.elim [] Command.arguments } := by
      rw [Invocation.arguments, Option.toList_some, List.map_singleton, List.singleton_append,
        read?, hword]
      exact read?_command { settings := [⟨.config, path⟩] } command
    rw [Request.ofArguments?, hread]
    exact request?_command (some path) command

/-- A run does what its arguments ask for. -/
theorem run_of_asked {arguments : List String} {i : Invocation}
    (h : Request.ofArguments? arguments = some (.run i)) (files : Files) :
    run files arguments = i.run files := by
  rw [run, h]

end TemplateVars
