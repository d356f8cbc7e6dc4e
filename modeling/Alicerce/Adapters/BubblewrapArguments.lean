import Alicerce.Adapters.CommandExecutor
import Alicerce.Lib.Options

/-!
# The command line of bubblewrap

What `_build_command` writes is read back by bubblewrap as the options it was written from, whatever
the paths, the environment and the arguments of the invocation look like: a value that stands where
an operand is expected is an operand, and nothing behind the `--` is looked at.

* `Knows`: how bubblewrap reads a command line is a grammar, of which only the options that are used
  are known, with the number of operands each takes (`optionArities`).
* `optionsOf` are the options of an invocation, and `sandboxedCommand` is what is run in the
  sandbox.  The command line is their print (`buildCommand_eq`).
* `AsksFor` is what a sandbox is asked for by these options.
* `buildCommand_parses`: read by any grammar that knows the options, the command line is these
  options and this command.
-/

set_option autoImplicit false

namespace Alicerce

open Py Lib

/-- The options that are used, and how many operands each of them takes. -/
def optionArities : List (Text × ℕ) :=
  [("--unshare-net", 0), ("--unshare-pid", 0), ("--unshare-ipc", 0), ("--unshare-uts", 0),
    ("--die-with-parent", 0), ("--new-session", 0), ("--clearenv", 0), ("--proc", 1), ("--dev", 1),
    ("--ro-bind", 2), ("--symlink", 2), ("--dir", 1), ("--chmod", 2), ("--bind", 2), ("--chdir", 1),
    ("--setenv", 2)]

/-- A grammar that knows these options, and ends the options with `--`. -/
structure Knows (g : OptionGrammar Text) : Prop where
  stop : g.stop = "--"
  arity : ∀ option ∈ optionArities, g.arity option.1 = some option.2

/-- The flags of the sandbox. -/
def namespaceFlags : List Text :=
  ["--unshare-net", "--unshare-pid", "--unshare-ipc", "--unshare-uts", "--die-with-parent",
    "--new-session", "--clearenv"]

/-- What is mounted in every sandbox. -/
def systemMounts : List (Text × List Text) :=
  [("--proc", ["/proc"]), ("--dev", ["/dev"]), ("--ro-bind", ["/usr", "/usr"]),
    ("--symlink", ["usr/bin", "/bin"]), ("--symlink", ["usr/lib", "/lib"]),
    ("--symlink", ["usr/lib64", "/lib64"])]

/-- What is mounted for an invocation. -/
def invocationMounts (invocation : SandboxInvocation) (relative : List Text) :
    List (Text × List Text) :=
  [("--dir", ["/alicerce"]), ("--ro-bind", [invocation.executable.str, sandboxExecutable.str]),
    ("--chmod", ["0555", "/alicerce"]), ("--dir", [sandboxWorkspace.str]),
    ("--bind", [invocation.workspaceRoot.str, sandboxWorkspace.str]),
    ("--chdir", [Path.str ⟨sandboxWorkspace.parts ++ relative⟩])]

/-- The environment of an invocation. -/
def environmentOptions (environment : List EnvironmentVariable) : List (Text × List Text) :=
  environment.map fun entry ↦ ("--setenv", [entry.name, entry.value])

/-- All the options of an invocation. -/
def optionsOf (invocation : SandboxInvocation) (relative : List Text) : List (Text × List Text) :=
  namespaceFlags.map (fun flag ↦ (flag, [])) ++ (systemMounts ++
    (invocationMounts invocation relative ++ environmentOptions invocation.environment))

/-- What is run in the sandbox. -/
def sandboxedCommand (invocation : SandboxInvocation) : List Text :=
  sandboxExecutable.str :: invocation.arguments

section

variable {g : OptionGrammar Text} {backend : LinuxProcessSandboxBackend}
  {invocation : SandboxInvocation} {relative : List Text}

/-- **The command line is printed** from the options and the command. -/
theorem buildCommand_eq (hstop : g.stop = "--")
    (h : invocation.workingDirectory.parts = invocation.workspaceRoot.parts ++ relative) :
    backend.buildCommand invocation = .ok (backend.bubblewrap.path.str ::
      g.print (optionsOf invocation relative) (sandboxedCommand invocation)) := by
  have hrelative : invocation.workingDirectory.parts.drop invocation.workspaceRoot.parts.length =
      relative := by rw [h, List.drop_left]
  have hroot : invocation.workingDirectory.IsRelativeTo invocation.workspaceRoot :=
    ⟨relative, h.symm⟩
  have henvironment : (environmentOptions invocation.environment).flatMap
      (fun option ↦ option.1 :: option.2) =
        invocation.environment.flatMap fun entry ↦ [text "--setenv", entry.name, entry.value] := by
    rw [environmentOptions, List.flatMap_map]
  rw [LinuxProcessSandboxBackend.buildCommand, if_pos hroot]
  dsimp only
  rw [hrelative, OptionGrammar.print, hstop, optionsOf, List.flatMap_append, List.flatMap_append,
    List.flatMap_append, henvironment]
  simp [LinuxProcessSandboxBackend.baseCommand, namespaceFlags, systemMounts, invocationMounts,
    sandboxedCommand]

theorem wellFormed_of_arities (hg : Knows g) {options : List (Text × List Text)}
    (h : ∀ option ∈ options, (option.1, option.2.length) ∈ optionArities) :
    g.WellFormed options := by
  intro option hoption
  have hne : ∀ known ∈ optionArities, known.1 ≠ text "--" := by decide +kernel
  refine ⟨?_, hg.arity _ (h option hoption)⟩
  rw [hg.stop]
  exact hne _ (h option hoption)

theorem optionsOf_arities : ∀ option ∈ optionsOf invocation relative,
    (option.1, option.2.length) ∈ optionArities := by
  have hflags : ∀ flag ∈ namespaceFlags, (flag, 0) ∈ optionArities := by decide +kernel
  have hsystem : ∀ option ∈ systemMounts, (option.1, option.2.length) ∈ optionArities := by
    decide +kernel
  have hmounts : ∀ arity ∈ (invocationMounts invocation relative).map
      (fun option ↦ (option.1, option.2.length)), arity ∈ optionArities := by
    have heq : (invocationMounts invocation relative).map
        (fun option ↦ (option.1, option.2.length)) = [(text "--dir", 1), (text "--ro-bind", 2),
          (text "--chmod", 2), (text "--dir", 1), (text "--bind", 2), (text "--chdir", 1)] := rfl
    rw [heq]
    decide +kernel
  have hsetenv : (text "--setenv", 2) ∈ optionArities := by decide +kernel
  intro option hoption
  rw [optionsOf] at hoption
  rcases List.mem_append.mp hoption with hflag | hoption
  · obtain ⟨flag, hmem, rfl⟩ := List.mem_map.mp hflag
    exact hflags flag hmem
  rcases List.mem_append.mp hoption with hmount | hoption
  · exact hsystem option hmount
  rcases List.mem_append.mp hoption with hmount | henvironment
  · exact hmounts _ (List.mem_map_of_mem hmount)
  · obtain ⟨entry, -, rfl⟩ := List.mem_map.mp henvironment
    exact hsetenv

/-! ## What the options ask for -/

theorem operandsOf_environment (environment : List EnvironmentVariable) {name : Text}
    (h : name ≠ "--setenv") :
    OptionGrammar.operandsOf name (environmentOptions environment) = [] := by
  refine OptionGrammar.operandsOf_eq_nil fun option hoption ↦ ?_
  obtain ⟨entry, -, rfl⟩ := List.mem_map.mp hoption
  exact h.symm

theorem operandsOf_setenv (environment : List EnvironmentVariable) :
    OptionGrammar.operandsOf (text "--setenv") (environmentOptions environment) =
      environment.map fun entry ↦ [entry.name, entry.value] := by
  rw [OptionGrammar.operandsOf_of_forall, environmentOptions, List.map_map]
  · rfl
  · intro option hoption
    obtain ⟨entry, -, rfl⟩ := List.mem_map.mp hoption
    rfl

/-- What a sandbox is asked for: the flags and nothing that takes them back, two read-only binds and
one that is writable, the environment in a cleared one, and the working directory. -/
structure AsksFor (invocation : SandboxInvocation) (options : List (Text × List Text)) : Prop where
  flags : (options.filter fun option ↦ option.2 = []).map Prod.fst = namespaceFlags
  cleared : ∃ before after, options = before ++ (text "--clearenv", []) :: after ∧
    OptionGrammar.operandsOf (text "--setenv") before = []
  readOnly : OptionGrammar.operandsOf (text "--ro-bind") options =
    [[text "/usr", text "/usr"], [invocation.executable.str, text "/alicerce/executable"]]
  writable : OptionGrammar.operandsOf (text "--bind") options =
    [[invocation.workspaceRoot.str, text "/workspace"]]
  environment : OptionGrammar.operandsOf (text "--setenv") options =
    invocation.environment.map fun entry ↦ [entry.name, entry.value]
  workingDirectory : ∃ relative,
    invocation.workingDirectory.parts = invocation.workspaceRoot.parts ++ relative ∧
    OptionGrammar.operandsOf (text "--chdir") options = [[Path.str ⟨text "workspace" :: relative⟩]]
  nothingElse : ∀ option ∈ options, (option.1, option.2.length) ∈ optionArities

theorem operandsOf_chdir :
    OptionGrammar.operandsOf (text "--chdir") (optionsOf invocation relative) =
    [[Path.str ⟨text "workspace" :: relative⟩]] := by
  rw [optionsOf, OptionGrammar.operandsOf_append, OptionGrammar.operandsOf_append,
    OptionGrammar.operandsOf_append, operandsOf_environment _ (by decide +kernel)]
  rfl

theorem optionsOf_asksFor
    (h : invocation.workingDirectory.parts = invocation.workspaceRoot.parts ++ relative) :
    AsksFor invocation (optionsOf invocation relative) where
  flags := by
    have henvironment : (environmentOptions invocation.environment).filter
        (fun option ↦ option.2 = []) = [] := by
      rw [List.filter_eq_nil_iff]
      intro option hoption
      obtain ⟨entry, -, rfl⟩ := List.mem_map.mp hoption
      simp
    rw [optionsOf, List.filter_append, List.filter_append, List.filter_append, henvironment]
    rfl
  cleared := ⟨(namespaceFlags.take 6).map fun flag ↦ (flag, []), _, rfl, by decide +kernel⟩
  readOnly := by
    rw [optionsOf, OptionGrammar.operandsOf_append, OptionGrammar.operandsOf_append,
      OptionGrammar.operandsOf_append, operandsOf_environment _ (by decide +kernel)]
    rfl
  writable := by
    rw [optionsOf, OptionGrammar.operandsOf_append, OptionGrammar.operandsOf_append,
      OptionGrammar.operandsOf_append, operandsOf_environment _ (by decide +kernel)]
    rfl
  environment := by
    rw [optionsOf, OptionGrammar.operandsOf_append, OptionGrammar.operandsOf_append,
      OptionGrammar.operandsOf_append, operandsOf_setenv]
    rfl
  workingDirectory := ⟨relative, h, operandsOf_chdir⟩
  nothingElse := optionsOf_arities

/-- **The command line cannot be injected into**: read by any grammar that knows the options, it is
the options of the invocation, and the command is the executable with the arguments as they are. -/
theorem buildCommand_parses (backend : LinuxProcessSandboxBackend) (hg : Knows g)
    (hroot : invocation.workingDirectory.IsRelativeTo invocation.workspaceRoot) :
    ∃ words options,
      backend.buildCommand invocation = .ok (backend.bubblewrap.path.str :: words) ∧
        g.parse words = some (options, text "/alicerce/executable" :: invocation.arguments) ∧
          AsksFor invocation options := by
  obtain ⟨relative, hrelative⟩ := hroot
  refine ⟨_, optionsOf invocation relative, buildCommand_eq hg.stop hrelative.symm, ?_,
    optionsOf_asksFor hrelative.symm⟩
  exact OptionGrammar.parse_print (wellFormed_of_arities hg optionsOf_arities)

/-- The grammar of exactly these options. -/
def strictGrammar : OptionGrammar Text where
  arity word := (optionArities.find? fun option ↦ option.1 = word).map Prod.snd
  stop := "--"
  refused word := word.head? = some (.scalar '-')

/-- An invocation whose arguments look like options. -/
def trickyInvocation : SandboxInvocation where
  executable := ⟨["usr", "bin", "uv"]⟩
  arguments := ["--", "--share-net", "--bind", "/", "/", ""]
  workspaceRoot := ⟨["work", "workspace-1"]⟩
  workingDirectory := ⟨["work", "workspace-1", "--bind"]⟩
  environment := [⟨"PATH", "--share-net", by decide, by decide⟩]
  networkPolicy := .denyAll
  limits := minuteLimits

theorem buildCommand_parses_tricky : ∃ words options,
    LinuxProcessSandboxBackend.buildCommand ⟨⟨⟨["usr", "bin", "bwrap"]⟩, sha256 ⟨#[]⟩⟩⟩
      trickyInvocation = .ok (text "/usr/bin/bwrap" :: words) ∧
    strictGrammar.parse words =
      some (options, text "/alicerce/executable" :: trickyInvocation.arguments) ∧
    AsksFor trickyInvocation options :=
  buildCommand_parses _ ⟨rfl, by decide +kernel⟩ (by decide +kernel)

end

end Alicerce
