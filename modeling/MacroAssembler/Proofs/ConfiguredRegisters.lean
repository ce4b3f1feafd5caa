/-
This module says which registers a configuration spells. A configuration is made for a named
backend, with features, defines or the variables of an environment, and is then changed any number
of times. Each of these may set the flags of the architectures like any other flag, while the
register table is chosen once, for the backend that was named, and is kept by every change.

So two architectures are in play. The selected one is the architecture whose flag was last set to
true, and there is always exactly one. The requested one is that of the backend name, and its
table spells the registers. They are the same as long as no flag of an architecture is set on the
way. Otherwise the configuration emits code for one machine with the registers of another, unless
the two have one table, as both 64-bit ARM architectures have.
-/
import MacroAssembler.Configuration
import MacroAssembler.Proofs.Step

namespace MacroAssembler

open List

/-! ### The value that was set last -/

namespace Association

variable {α : Type}

/-- The value that a list of settings gives a key, where later settings replace earlier ones. -/
def latest? (given : List (String × α)) (key : String) : Option α := get? given.reverse key

theorem get?_append (first second : List (String × α)) (key : String) :
    get? (first ++ second) key = (get? first key).or (get? second key) := by
  induction first with
  | nil => rfl
  | cons entry rest ih =>
    rw [cons_append, get?_cons, get?_cons, ih]
    split <;> rfl

theorem latest?_append (first second : List (String × α)) (key : String) :
    latest? (first ++ second) key = (latest? second key).or (latest? first key) := by
  unfold latest?
  rw [reverse_append, get?_append]

theorem get?_update (entries given : List (String × α)) (key : String) :
    get? (update entries given) key = (latest? given key).or (get? entries key) := by
  induction given generalizing entries with
  | nil => rfl
  | cons entry rest ih =>
    have step : update entries (entry :: rest) = update (set entries entry.1 entry.2) rest := rfl
    rw [step, ih, get?_set, ← singleton_append, latest?_append, Option.or_assoc]
    congr 1
    unfold latest?
    rw [reverse_singleton, get?_cons]
    split <;> rfl

variable {key : String} {given entries : List (String × α)}

theorem latest?_eq_none (absent : ∀ entry ∈ given, entry.1 ≠ key) : latest? given key = none := by
  unfold latest? get?
  rw [Option.map_eq_none_iff, find?_eq_none]
  intro entry mem
  simpa using absent entry (mem_reverse.mp mem)

theorem mem_keys_set {other : String} {value : α} (mem : other ∈ keys (set entries key value)) :
    other = key ∨ other ∈ keys entries := by
  unfold set at mem
  split at mem
  · obtain ⟨entry, inReplaced, rfl⟩ := mem_map.mp mem
    obtain ⟨replaced, inEntries, rfl⟩ := mem_map.mp inReplaced
    split
    · exact .inl rfl
    · exact .inr (mem_map_of_mem inEntries)
  · rw [keys, map_append, mem_append] at mem
    exact mem.symm.imp_left mem_singleton.mp

theorem mem_keys_update (mem : key ∈ keys (update entries given)) :
    key ∈ keys entries ∨ key ∈ keys given := by
  induction given generalizing entries with
  | nil => exact .inl mem
  | cons entry rest ih =>
    rcases ih mem with inSet | inRest
    · rcases mem_keys_set inSet with rfl | inEntries
      · exact .inr mem_cons_self
      · exact .inl inEntries
    · exact .inr (mem_cons_of_mem _ inRest)

end Association

namespace Architecture

theorem mem_all (architecture : Architecture) : architecture ∈ all := by
  cases architecture <;> decide

theorem ofName?_name (architecture : Architecture) :
    ofName? architecture.name = some architecture := by
  cases architecture <;> decide

end Architecture

/-! ### Configurations that can be reached -/

namespace Configuration

/-- What a configuration is made from. -/
inductive Source
  | backend (name : String) (layout : List (String × Int)) (features : List (String × Bool))
  | defines (name : String) (texts : List String) (layout : List (String × Int))
  | environment (entries : List (String × String))

namespace Source

def environmentBackend (entries : List (String × String)) : String :=
  let backend := (Association.get? entries "OFFLINEASM_BACKEND").getD ""
  if backend = "" then "ARM64" else backend

def environmentDefines (entries : List (String × String)) : List String :=
  (commaParts ((Association.get? entries "OFFLINEASM_DEFINES").getD "")).filter fun define =>
    decide (Text.strip define ≠ "")

def make : Source → Checked Configuration
  | .backend name layout features => forBackend name layout features
  | .defines name texts layout => ofDefines name texts layout
  | .environment entries => ofEnvironment entries

def backendName : Source → String
  | .backend name _ _ | .defines name _ _ => name
  | .environment entries => environmentBackend entries

def given : Source → Checked (List (String × Bool))
  | .backend _ _ features => .ok features
  | .defines _ texts _ => do return Association.update [] (← texts.mapM parseDefine)
  | .environment entries => do
    return Association.update [] (← (environmentDefines entries).mapM parseDefine)

end Source

inductive Change
  | flags (changes : List (String × Bool))
  | layout (changes : List (String × Int))

namespace Change

def apply (config : Configuration) : Change → Checked Configuration
  | .flags changes => config.withFlags changes
  | .layout changes => .ok (config.withLayout changes)

def given : Change → List (String × Bool)
  | .flags changes => changes
  | .layout _ => []

end Change

def configure (source : Source) (changes : List Change) : Checked Configuration := do
  changes.foldlM Change.apply (← source.make)

/-! ### The selected and the requested architecture -/

def selectedFlags (config : Configuration) : List (String × Bool) :=
  config.flags.filter fun flag => flag.2 && (Architecture.ofName? flag.1).isSome

/-- What is known of a configuration that was requested for an architecture and given flags: the
table is that of the requested architecture, and the selected architecture is the one whose flag
was last set to true, where at first only the flag of the requested one is. -/
structure Tracks (requested : Architecture) (given : List (String × Bool))
    (config : Configuration) : Prop where
  registers : config.registerNames = RegisterTable.ofArchitecture requested
  selected : ∀ architecture : Architecture,
    (Association.latest? given architecture.name).getD (decide (architecture = requested)) =
      decide (architecture = config.architecture)
  apart : ∀ flag ∈ config.features, Architecture.ofName? flag.1 = none

theorem get?_architectureFlags (selected : Architecture → Bool) (architecture : Architecture) :
    Association.get? (architectureFlags selected) architecture.name =
      some (selected architecture) := by
  cases architecture <;> rfl

theorem get?_flags (config : Configuration) (architecture : Architecture) :
    Association.get? config.flags architecture.name =
      some (decide (architecture = config.architecture)) := by
  rw [flags, Association.get?_append, get?_architectureFlags]
  rfl

variable {config configuration : Configuration} {layout : List (String × Int)} {name : String}
  {given : List (String × Bool)} {requested : Architecture}

theorem ofFlags_ok {flags : List (String × Bool)} {registerNames : RegisterTable}
    (made : ofFlags flags registerNames layout = .ok config) :
    config.registerNames = registerNames ∧ (∀ architecture : Architecture,
        (Association.get? flags architecture.name).getD false =
          decide (architecture = config.architecture)) ∧
      ∀ flag ∈ config.features, Architecture.ofName? flag.1 = none := by
  unfold ofFlags at made
  dsimp only at made
  split at made
  · rename_i selected single
    cases made
    refine ⟨rfl, fun architecture => ?_, fun flag mem => ?_⟩
    · have only : architecture ∈ Architecture.all.filter (fun architecture =>
          (Association.get? flags architecture.name).getD false) ↔ architecture = selected := by
        rw [single, mem_singleton]
      rw [mem_filter, and_iff_right (Architecture.mem_all architecture)] at only
      exact Bool.eq_iff_iff.mpr (only.trans decide_eq_true_iff.symm)
    · rcases Association.mem_keys_update (mem_map_of_mem mem) with inDefaults | inFlags
      · rw [mem_singleton.mp inDefaults]
        decide
      · obtain ⟨other, inFiltered, sameName⟩ := mem_map.mp inFlags
        rw [← sameName]
        exact Option.isNone_iff_eq_none.mp (mem_filter.mp inFiltered).2
  · cases made

theorem tracks_forBackend {features : List (String × Bool)}
    (made : forBackend name layout features = .ok config) :
    ∃ requested, Architecture.ofBackendName name = .ok requested ∧
      Tracks requested features config := by
  unfold forBackend at made
  obtain ⟨_, _, made⟩ := Checked.bind_ok.mp made
  obtain ⟨requested, resolved, made⟩ := Checked.bind_ok.mp made
  obtain ⟨registers, selected, apart⟩ := ofFlags_ok made
  refine ⟨requested, resolved, registers, fun architecture => ?_, apart⟩
  rw [← selected architecture, Association.get?_update, get?_architectureFlags,
    Option.getD_or, Option.getD_some]

theorem tracks_ofDefines {defines : List String}
    (made : ofDefines name defines layout = .ok config) :
    ∃ requested features, Architecture.ofBackendName name = .ok requested ∧
      defines.mapM parseDefine = .ok features ∧
      Tracks requested (Association.update [] features) config := by
  obtain ⟨features, parsed, made⟩ := Checked.bind_ok.mp made
  obtain ⟨requested, resolved, tracks⟩ := tracks_forBackend made
  exact ⟨requested, features, resolved, parsed, tracks⟩

theorem tracks_make {source : Source} (made : source.make = .ok config) :
    ∃ requested given, Architecture.ofBackendName source.backendName = .ok requested ∧
      source.given = .ok given ∧ Tracks requested given config := by
  cases source with
  | backend name layout features =>
    obtain ⟨requested, resolved, tracks⟩ := tracks_forBackend made
    exact ⟨requested, features, resolved, rfl, tracks⟩
  | defines name texts layout =>
    obtain ⟨requested, features, resolved, parsed, tracks⟩ := tracks_ofDefines made
    refine ⟨requested, _, resolved, ?_, tracks⟩
    rw [Source.given, parsed]
    rfl
  | environment entries =>
    obtain ⟨requested, features, resolved, parsed, tracks⟩ :=
      tracks_ofDefines (show ofDefines (Source.environmentBackend entries)
        (Source.environmentDefines entries) [] = .ok config from made)
    refine ⟨requested, _, resolved, ?_, tracks⟩
    rw [Source.given, parsed]
    rfl

/-- What one change does: a change of flags replaces what was given before, and the table of the
requested architecture stays. -/
theorem Tracks.change {changed : Configuration} {change : Change}
    (tracks : Tracks requested given config) (applied : change.apply config = .ok changed) :
    Tracks requested (given ++ change.given) changed := by
  cases change with
  | layout changes =>
    cases applied
    rw [Change.given, append_nil]
    exact ⟨tracks.registers, tracks.selected, tracks.apart⟩
  | flags changes =>
    unfold Change.apply withFlags at applied
    dsimp only at applied
    split at applied
    · cases applied
    · obtain ⟨registers, selected, apart⟩ := ofFlags_ok applied
      refine ⟨registers.trans tracks.registers, fun architecture => ?_, apart⟩
      rw [← selected architecture, Association.get?_update, get?_flags,
        ← tracks.selected architecture, Change.given, Association.latest?_append,
        Option.getD_or, Option.getD_or, Option.getD_some]

theorem Tracks.changes {first last : Configuration} {changes : List Change}
    (tracks : Tracks requested given first)
    (applied : changes.foldlM Change.apply first = .ok last) :
    Tracks requested (given ++ changes.flatMap Change.given) last := by
  induction changes generalizing first given with
  | nil =>
    cases applied
    rwa [flatMap_nil, append_nil]
  | cons change rest ih =>
    rw [List.foldlM_cons] at applied
    obtain ⟨changed, here, applied⟩ := Checked.bind_ok.mp applied
    rw [flatMap_cons, ← append_assoc]
    exact ih (tracks.change here) applied

theorem Tracks.selectedFlags (tracks : Tracks requested given config) :
    config.selectedFlags = [(config.architecture.name, true)] := by
  have noFeature : config.features.filter
      (fun flag => flag.2 && (Architecture.ofName? flag.1).isSome) = [] := by
    rw [filter_eq_nil_iff]
    intro flag mem
    simp [tracks.apart flag mem]
  unfold Configuration.selectedFlags flags
  rw [filter_append, noFeature, append_nil]
  cases config.architecture <;> decide

theorem Tracks.unchanged (tracks : Tracks requested given config)
    (untouched : ∀ flag ∈ given, Architecture.ofName? flag.1 = none) :
    config.architecture = requested := by
  have unset : Association.latest? given requested.name = none := by
    refine Association.latest?_eq_none fun flag mem sameName => ?_
    have none := untouched flag mem
    rw [sameName, Architecture.ofName?_name] at none
    cases none
  have selected := tracks.selected requested
  rw [unset, Option.getD_none] at selected
  exact (of_decide_eq_true (selected.symm.trans (decide_eq_true rfl))).symm

/-! ### Register tables -/

/-- The 64-bit ARM architectures, which have one register table. -/
def isArm64 (architecture : Architecture) : Bool :=
  architecture = .arm64 || architecture = .arm64e

/-- Two architectures share a register table only if they are the same or both 64-bit ARM. -/
theorem ofArchitecture_eq_iff (first second : Architecture) :
    RegisterTable.ofArchitecture first = RegisterTable.ofArchitecture second ↔
      first = second ∨ (isArm64 first ∧ isArm64 second) := by
  cases first <;> cases second <;> decide +kernel

/-- Every configuration that can be reached selects exactly one architecture, the one whose flag
was last set to true, and spells the registers of the backend that was named. These are its own
registers exactly if the two architectures have one table, and so whenever no flag of an
architecture was set. -/
theorem configure_registers {source : Source} {changes : List Change}
    {configuration : Configuration} (made : configure source changes = .ok configuration) :
    ∃ requested first, Architecture.ofBackendName source.backendName = .ok requested ∧
      source.given = .ok first ∧
      configuration.selectedFlags = [(configuration.architecture.name, true)] ∧
      (∀ architecture : Architecture,
        (Association.latest? (first ++ changes.flatMap Change.given) architecture.name).getD
            (decide (architecture = requested)) =
          decide (architecture = configuration.architecture)) ∧
      configuration.registerNames = RegisterTable.ofArchitecture requested ∧
      (configuration.registerNames = RegisterTable.ofArchitecture configuration.architecture ↔
        requested = configuration.architecture ∨
          (isArm64 requested ∧ isArm64 configuration.architecture)) ∧
      ((∀ flag ∈ first ++ changes.flatMap Change.given, Architecture.ofName? flag.1 = none) →
        configuration.registerNames =
          RegisterTable.ofArchitecture configuration.architecture) := by
  obtain ⟨start, started, applied⟩ := Checked.bind_ok.mp made
  obtain ⟨requested, first, resolved, given, startTracks⟩ := tracks_make started
  have tracks := startTracks.changes applied
  refine ⟨requested, first, resolved, given, tracks.selectedFlags, tracks.selected,
    tracks.registers, ?_, fun untouched => ?_⟩
  · rw [tracks.registers]
    exact ofArchitecture_eq_iff requested configuration.architecture
  · rw [tracks.unchanged untouched, tracks.registers]

/-- A define, a change of architecture and a change of layout after the other ARM was named: the
configuration selects the first ARM, whose registers it spells. -/
theorem configure_registers_arm64e :
    let source := Source.defines "arm64e" ["JIT=0"] []
    let changes := [Change.flags [("ARM64E", false), ("ARM64", true)], .layout [("Cell::kind", 8)]]
    ∃ configuration, configure source changes = .ok configuration ∧
      configuration.architecture = .arm64 ∧
      configuration.registerNames = RegisterTable.ofArchitecture .arm64 := by
  intro source changes
  have evaluated : (configure source changes).toOption.map architecture = some .arm64 := by
    decide +kernel
  rcases made : configure source changes with failure | configuration
  · rw [made] at evaluated
    cases evaluated
  · rw [made] at evaluated
    have selected : configuration.architecture = .arm64 := Option.some.inj evaluated
    obtain ⟨requested, _, resolved, _, _, _, _, own, _⟩ := configure_registers made
    have named : (Architecture.ofBackendName "arm64e").toOption = some .arm64e := by decide +kernel
    rw [show Architecture.ofBackendName "arm64e" = .ok requested from resolved] at named
    have isArm : isArm64 requested := by rw [Option.some.inj named]; decide
    refine ⟨configuration, rfl, selected, ?_⟩
    rw [← selected]
    exact own.mpr (.inr ⟨isArm, by rw [selected]; decide⟩)

/-- An ARM configuration that is changed to x86 goes on spelling the registers of ARM. -/
theorem configure_foreignRegisters :
    (configure (.backend "ARM64" [] []) [.flags [("ARM64", false), ("X86_64", true)]]).toOption.map
        (fun configuration => (configuration.architecture, configuration.registerName? "t0")) =
      some (.x86, some "x0") ∧
    Association.get? (RegisterTable.ofArchitecture .x86) "t0" = some "%rax" := by
  decide +kernel

end Configuration

end MacroAssembler
