import Alicerce.Adapters.FileHost
import Alicerce.Adapters.SharedRoot

/-!
# A race that is lost twice

Two instances are handed the same id.  The first one finds its place free; the second one finds it
free, too, clones and publishes; then the first one, on its second look, finds a directory there,
reports a failure, and discards the directory.

* `Arena` is what the two share, and `arenaHost` the host they run on; `ArenaRace` is a race there.
* `beforeRace`, `firstLooked`, `secondPublished` and `firstFailing` are the stages of it.
* `race_removes_published` is the race that is lost twice.
* `tooLate` is one that is in order, in which the first instance has found its id taken.
-/

set_option autoImplicit false

namespace Alicerce

open Py Lib

/-! ## A Git that clones -/

section Clone

variable {names : List Text} {id : WorkspaceId} {root : Path} {log : OsLog} {disk : Disk names}

/-- Whether an id was handed out. -/
def handedIn (id : WorkspaceId) (log : OsLog) : Bool :=
  log.any fun
    | ⟨.newWorkspaceId, .ok id'⟩ => id' = id
    | _ => false

theorem mem_of_handedIn (h : handedIn id log = true) : ⟨.newWorkspaceId, .ok id⟩ ∈ log := by
  obtain ⟨event, hmem, hevent⟩ := List.any_eq_true.mp h
  split at hevent
  · rw [of_decide_eq_true hevent] at hmem
    exact hmem
  · exact absurd hevent (by simp)

/-- What a clone leaves: a directory with Git's own files. -/
def cloned (place : List Text) (disk : Disk names) : Disk names :=
  ((disk.put ⟨place⟩ .dir).put ⟨place ++ [text ".git"]⟩ .dir).put
    ⟨place ++ [text ".git", text "config"]⟩ (.file ⟨#[]⟩)

theorem gitWorks_put {rest : List Text} {n : Node Text Bytes} (hn : ¬n.IsLink)
    (hhanded : ⟨.newWorkspaceId, .ok id⟩ ∈ log) :
    GitWorks root log disk.tree (disk.put ⟨entryOf root id ++ rest⟩ n).tree := by
  refine ⟨fun q hq ↦ ?_, fun id' _ hlink ↦ ?_⟩
  · rcases disk.node_put ⟨entryOf root id ++ rest⟩ n q with hsame | ⟨rfl, -⟩
    · exact hsame
    · exact absurd (List.prefix_append _ _) (hq _ (.inl ⟨id, hhanded, rfl⟩))
  · obtain ⟨m, hm, hislink⟩ := hlink
    rcases disk.node_put ⟨entryOf root id ++ rest⟩ n (entryOf root id') with hsame | ⟨-, hnew⟩
    · exact ⟨m, hsame ▸ hm, hislink⟩
    · rw [hnew] at hm
      exact absurd (Option.some.inj hm ▸ hislink) hn

theorem GitWorks.trans {tree tree' tree'' : HostTree} (h : GitWorks root log tree tree')
    (h' : GitWorks root log tree' tree'') : GitWorks root log tree tree'' where
  same := h.same.trans h'.same
  noLink id hid hlink := h.noLink id hid (h'.noLink id hid hlink)

theorem gitWorks_refl (tree : HostTree) : GitWorks root log tree tree :=
  ⟨FileTree.sameOutside_refl _ _, fun _ _ h ↦ h⟩

theorem gitWorks_cloned (hhanded : ⟨.newWorkspaceId, .ok id⟩ ∈ log) :
    GitWorks root log disk.tree (cloned (entryOf root id) disk).tree := by
  have hdir : GitWorks root log disk.tree (disk.put ⟨entryOf root id⟩ .dir).tree := by
    have hput : GitWorks root log disk.tree (disk.put ⟨entryOf root id ++ []⟩ .dir).tree :=
      gitWorks_put (fun h ↦ h) hhanded
    rwa [List.append_nil] at hput
  exact (hdir.trans (gitWorks_put (n := .dir) (fun h ↦ h) hhanded)).trans
    (gitWorks_put (n := .file ⟨#[]⟩) (fun h ↦ h) hhanded)

/-- A host on which `git clone` clones, once an id was handed out. -/
def cloningHost (handed : Bool) : FileHost localNames where
  jams _ := none
  effect argv disk :=
    if handed && decide (text "clone" ∈ argv) then
      cloned (entryOf localWorkspace.root localIdentity.workspaceId) disk
    else disk
  output := headOutput

end Clone

/-! ## Two contenders -/

/-- Two instances. -/
inductive Contender
  | first
  | second
deriving DecidableEq

/-- What they share: the files, what is left to be read by each, and the note of makers. -/
structure Arena where
  disk : Disk localNames
  left : Contender → List UInt8
  maker : WorkspaceId → Option Contender

/-- The site it is. -/
def Arena.site (arena : Arena) : Site Contender := ⟨arena.disk.tree, arena.maker⟩

@[simp] theorem Arena.site_tree (arena : Arena) : arena.site.tree = arena.disk.tree := rfl

@[simp] theorem Arena.site_maker (arena : Arena) : arena.site.maker = arena.maker := rfl

/-- The host the contenders run on. -/
def arenaHost (i : Contender) (log : OsLog) (arena : Arena) (c : OsCall) : c.Answer × Arena :=
  let reply := (cloningHost (handedIn localIdentity.workspaceId log)).answer
    (arena.disk, arena.left i) c
  (reply.1, ⟨reply.2.1, Function.update arena.left i reply.2.2,
    arena.site.note localWorkspace.root i reply.2.1.tree⟩)

/-- The host does with the shared root what hosts do. -/
theorem shares_arenaHost (i : Contender) (log : OsLog) (arena : Arena) (c : OsCall) :
    Shares localWorkspace.root i log arena.site ⟨c, (arenaHost i log arena c).1⟩
      (arenaHost i log arena c).2.site := by
  refine ⟨FileHost.acts _ (by decide) (fun _ ↦ gitWorks_refl _) (fun argv disk ↦ ?_)
    (arena.disk, arena.left i) c, rfl⟩
  change GitWorks _ _ _ (if _ then _ else _ : Disk localNames).tree
  split
  · rename_i h
    exact gitWorks_cloned (mem_of_handedIn (Bool.and_eq_true_iff.mp h).1)
  · exact gitWorks_refl _

/-- Both contenders are instances over one root. -/
def contenders : Contender → LocalGitWorkspace := fun _ ↦ localWorkspace

/-- A race in the arena. -/
abbrev ArenaRace := Group Contender OsCall.Answer Exc Registry WorkspaceIdentity Arena

/-- A repository and an empty root. -/
def arenaDisk : Disk localNames := .ofList [(["repo"], .dir), (["work"], .dir)] (by decide)
    (by decide)

/-- Before the race. -/
def beforeRace : ArenaRace :=
  ⟨⟨arenaDisk, fun _ ↦ [], fun _ ↦ none⟩, fun _ ↦ ⟨Registry.empty, [], none⟩⟩

/-- A contender starts to prepare a workspace for the run. -/
def ArenaRace.begin (i : Contender) (s : ArenaRace) : ArenaRace :=
  s.set i ⟨(s.party i).own, [], some (localWorkspace.prepare 100 localRun (s.party i).own)⟩

theorem fresh_beforeRace : Race.Fresh localWorkspace.root (beforeRace.view Arena.site) :=
  ⟨fun _ ↦ rfl, rfl, fun _ ↦ rfl⟩

theorem step_begin {i : Contender} {s : ArenaRace} (h : (s.party i).rest = none) :
    Race.Step contenders localWorkspace.root (s.view Arena.site)
      (.start i (localWorkspace.prepare 100 localRun)) ((s.begin i).view Arena.site) :=
  .start (s := s.view Arena.site) h ⟨100, localRun, rfl⟩

theorem steps_turns_arena (schedule : List Contender) (s : ArenaRace) :
    Steps (Race.Step contenders localWorkspace.root) (s.view Arena.site)
      (Group.turns arenaHost schedule s).2 ((Group.turns arenaHost schedule s).1.view Arena.site) :=
  Group.steps_turns shares_arenaHost schedule

/-! ## The race that is lost twice -/

/-- The first contender has found the place free. -/
def firstLooked : ArenaRace :=
  (Group.turns arenaHost (List.replicate 6 .first) (beforeRace.begin .first)).1

/-- The second one has published. -/
def secondPublished : ArenaRace :=
  (Group.turns arenaHost (List.replicate 102 .second) (firstLooked.begin .second)).1

/-- The first one is about to discard what it has not made. -/
def firstFailing : ArenaRace := (Group.turns arenaHost (List.replicate 8 .first) secondPublished).1

/-- Whether what is left of a program begins with a call. -/
def atCall (s : ArenaRace) (i : Contender) : Bool :=
  match (s.party i).rest with
  | some (.call _ _) => true
  | _ => false

theorem exists_of_atCall {s : ArenaRace} {i : Contender} (h : atCall s i = true) :
    ∃ c k, (s.party i).rest = some (.call c k) := by
  rw [atCall] at h
  split at h
  · exact ⟨_, _, ‹_›⟩
  · exact absurd h (by simp)

/-- **A published workspace is removed by a `prepare` that fails.** -/
theorem race_removes_published : ∃ s₀ moves s event s', Race.Fresh localWorkspace.root s₀ ∧
    Steps (Race.Step contenders localWorkspace.root) s₀ moves s ∧
    ((s.party .second).own.records localIdentity.workspaceId).map (·.identity) =
      some localIdentity ∧
    s.world.maker localIdentity.workspaceId = some .second ∧
    Race.Step contenders localWorkspace.root s (.act .first event) s' ∧
    (s.world.tree.node (entryOf localWorkspace.root localIdentity.workspaceId)).isSome = true ∧
    s'.world.tree.node (entryOf localWorkspace.root localIdentity.workspaceId) = none := by
  have hfirst := steps_turns_arena (List.replicate 6 .first) (beforeRace.begin .first)
  have hsecond := steps_turns_arena (List.replicate 102 .second) (firstLooked.begin .second)
  have hfailing := steps_turns_arena (List.replicate 8 .first) secondPublished
  have hidle : (firstLooked.party .second).rest = none := rfl
  have hsteps := Steps.append_iff.mpr ⟨_, .cons (step_begin rfl) hfirst,
    Steps.append_iff.mpr ⟨_, .cons (step_begin hidle) hsecond, hfailing⟩⟩
  have hseen : atCall firstFailing .first = true ∧
      ((firstFailing.party .second).own.records localIdentity.workspaceId).map (·.identity) =
        some localIdentity ∧
      firstFailing.world.maker localIdentity.workspaceId = some .second ∧
      (firstFailing.world.disk.tree.node
        (entryOf localWorkspace.root localIdentity.workspaceId)).isSome = true ∧
      (Group.turn arenaHost .first firstFailing).1.world.disk.tree.node
        (entryOf localWorkspace.root localIdentity.workspaceId) = none := by decide +kernel
  obtain ⟨hcall, hrecord, hmaker, hthere, hgone⟩ := hseen
  obtain ⟨c, k, hrest⟩ := exists_of_atCall hcall
  refine ⟨beforeRace.view Arena.site, _, firstFailing.view Arena.site, _, _, fresh_beforeRace,
    hsteps, ?_, ?_, Group.step_turn_call shares_arenaHost hrest, ?_, ?_⟩
  · rw [Group.view_party]
    exact hrecord
  · rw [Group.view_world, Arena.site_maker]
    exact hmaker
  · rw [Group.view_world, Arena.site_tree]
    exact hthere
  · rw [Group.view_world, Arena.site_tree]
    exact hgone

/-! ## A race in order -/

/-- No check whether a place is free fails. -/
def answeredMove : RaceMove Contender → Bool
  | .act _ ⟨.pathExists _, .error _⟩ | .act _ ⟨.isSymlink _, .error _⟩ => false
  | _ => true

theorem answered_of_answeredMove {s : Race Contender} {move : RaceMove Contender}
    (h : answeredMove move = true) : Race.Answered contenders s move := by
  rintro i id error (rfl | rfl)
  · exact absurd h (by simp [answeredMove])
  · exact absurd h (by simp [answeredMove])

/-- While all but one wait, no two have found the same id. -/
theorem exclusive_of_waiting {s : ArenaRace} {i : Contender}
    (h : ∀ j, j ≠ i → (s.party j).log = []) :
    Race.Exclusive contenders (s.view Arena.site) := by
  intro j k id hne hj hk
  by_cases hji : j = i
  · have hlog : ((s.view Arena.site).party k).log = [] := h k fun hki ↦ hne (hji.trans hki.symm)
    rw [hlog] at hk
    exact Race.not_found_nil _ _ hk
  · have hlog : ((s.view Arena.site).party j).log = [] := h j hji
    rw [hlog] at hj
    exact Race.not_found_nil _ _ hj

/-- One contender goes on while all others wait. -/
theorem orderly_turns {i : Contender} {n : ℕ} {s : ArenaRace}
    (hwait : ∀ j, j ≠ i → (s.party j).log = [])
    (hanswered : (Group.turns arenaHost (List.replicate n i) s).2.all answeredMove = true) :
    Steps (Race.OrderlyStep contenders localWorkspace.root) (s.view Arena.site)
      (Group.turns arenaHost (List.replicate n i) s).2
      ((Group.turns arenaHost (List.replicate n i) s).1.view Arena.site) := by
  induction n generalizing s with
  | zero => exact .nil _
  | succ n ih =>
    rw [List.replicate_succ, Group.turns, List.all_append, Bool.and_eq_true] at hanswered
    have hwait' : ∀ j, j ≠ i → ((Group.turn arenaHost i s).1.party j).log = [] := fun j hj ↦ by
      rw [Group.turn_party_of_ne hj]
      exact hwait j hj
    refine Steps.append_iff.mpr ⟨_, ?_, ih hwait' hanswered.2⟩
    have hexclusive : Race.Exclusive contenders ((Group.turn arenaHost i s).1.view Arena.site) :=
      exclusive_of_waiting hwait'
    have hstill : ∀ {moves : List (RaceMove Contender)}, (Group.turn arenaHost i s).2 = moves →
        moves.all answeredMove = true := fun h ↦ h ▸ hanswered.1
    rcases hrest : (s.party i).rest with _ | u
    · have hturn : Group.turn arenaHost i s = (s, []) := by rw [Group.turn, hrest]
      rw [hturn]
      exact .nil _
    cases u with
    | running =>
      have hturn : Group.turn arenaHost i s = (s, []) := by rw [Group.turn, hrest]
      rw [hturn]
      exact .nil _
    | ret x =>
      obtain ⟨x, own⟩ := x
      have hturn : (Group.turn arenaHost i s).2 = [.finish i x] := by rw [Group.turn, hrest]
      rw [hturn]
      exact .cons ⟨Group.step_turn_ret hrest, hexclusive, answered_of_answeredMove rfl⟩ (.nil _)
    | call c k =>
      have hturn : (Group.turn arenaHost i s).2 =
          [.act i ⟨c, (arenaHost i (s.party i).log s.world c).1⟩] := by rw [Group.turn, hrest]
      have hmove := hstill hturn
      rw [hturn]
      rw [List.all_cons, Bool.and_eq_true] at hmove
      exact .cons ⟨Group.step_turn_call shares_arenaHost hrest, hexclusive,
        answered_of_answeredMove hmove.1⟩ (.nil _)

/-- The second contender has published before the first one starts. -/
def published : ArenaRace :=
  (Group.turns arenaHost (List.replicate 102 .second) (beforeRace.begin .second)).1

/-- The first one is handed the same id, and has found it taken. -/
def tooLate : ArenaRace :=
  (Group.turns arenaHost (List.replicate 5 .first) (published.begin .first)).1

/-- Whether a program is at its end. -/
def atEnd (s : ArenaRace) (i : Contender) : Bool :=
  match (s.party i).rest with
  | some (.ret _) => true
  | _ => false

theorem exists_of_atEnd {s : ArenaRace} {i : Contender} (h : atEnd s i = true) :
    ∃ x own, (s.party i).rest = some (.ret (x, own)) := by
  rw [atEnd] at h
  split at h
  · exact ⟨_, _, ‹_›⟩
  · exact absurd h (by simp)

theorem orderly_begin {i : Contender} {s : ArenaRace} (hidle : (s.party i).rest = none)
    (hwait : ∀ j, j ≠ i → (s.party j).log = []) :
    Race.OrderlyStep contenders localWorkspace.root (s.view Arena.site)
      (.start i (localWorkspace.prepare 100 localRun)) ((s.begin i).view Arena.site) := by
  refine ⟨step_begin hidle, exclusive_of_waiting (i := i) fun j hj ↦ ?_,
    answered_of_answeredMove rfl⟩
  rw [ArenaRace.begin, Group.set_party_of_ne hj]
  exact hwait j hj

/-- A call that is handed the id of a published workspace reports that it exists. -/
theorem prepares_exclusive_tooLate : ∃ s₀ moves s x own detail, Race.Fresh localWorkspace.root s₀ ∧
    Steps (Race.OrderlyStep contenders localWorkspace.root) s₀ moves s ∧
    s.world.maker localIdentity.workspaceId = some .second ∧
    (s.party .first).rest = some (.ret (x, own)) ∧
    x = .error (workspaceError .alreadyExists detail) := by
  have hempty : ∀ {s : ArenaRace} {i}, (s.party i).log.isEmpty = true → (s.party i).log = [] :=
    List.isEmpty_iff.mp
  have hothers : ∀ {s : ArenaRace}, (s.party .second).log.isEmpty = true →
      ∀ j, j ≠ .first → (s.party j).log = [] := fun h j hj ↦ by
    cases j with
    | first => exact absurd rfl hj
    | second => exact hempty h
  have hsecond : Steps (Race.OrderlyStep contenders localWorkspace.root)
      ((beforeRace.begin .second).view Arena.site) _ (published.view Arena.site) :=
    orderly_turns (i := .second) (n := 102) (s := beforeRace.begin .second) (fun j hj ↦ by
      cases j with
      | first => rfl
      | second => exact absurd rfl hj) (by decide +kernel)
  have hfirst : Steps (Race.OrderlyStep contenders localWorkspace.root)
      ((published.begin .first).view Arena.site) _ (tooLate.view Arena.site) :=
    orderly_turns (i := .first) (n := 5) (s := published.begin .first)
      (hothers (by decide +kernel)) (by decide +kernel)
  have hdone : (published.party .first).rest = none := by
    rw [published, Group.turns_party_of_not_mem (by simp)]
    rfl
  have hstart := orderly_begin (i := .first) hdone (hothers (s := published) (by decide +kernel))
  have hsteps := Steps.append_iff.mpr ⟨published.view Arena.site,
    .cons (orderly_begin (s := beforeRace) rfl fun _ _ ↦ rfl) hsecond, .cons hstart hfirst⟩
  have hseen : atEnd tooLate .first = true ∧ (tooLate.party .second).log.isEmpty = true ∧
      tooLate.world.maker localIdentity.workspaceId = some .second ∧
      handedIn localIdentity.workspaceId (tooLate.party .first).log = true := by decide +kernel
  obtain ⟨hend, hwaits, hmade, hhanded⟩ := hseen
  obtain ⟨x, own, hrest⟩ := exists_of_atEnd hend
  have hmaker : (tooLate.view Arena.site).world.maker localIdentity.workspaceId = some .second := by
    rw [Group.view_world, Arena.site_maker]
    exact hmade
  have hwait : ∀ j, j ≠ .first → ((Group.turn arenaHost .first tooLate).1.party j).log = [] :=
    fun j hj ↦ by
      rw [Group.turn_party_of_ne hj]
      exact hothers hwaits j hj
  have hexclusive : Race.Exclusive contenders
      ((Group.turn arenaHost .first tooLate).1.view Arena.site) := exclusive_of_waiting hwait
  have hstep : Race.OrderlyStep contenders localWorkspace.root (tooLate.view Arena.site)
      (.finish .first x) ((Group.turn arenaHost .first tooLate).1.view Arena.site) :=
    ⟨Group.step_turn_ret hrest, hexclusive, answered_of_answeredMove rfl⟩
  obtain ⟨detail, hx⟩ := (Race.prepares_exclusive contenders (fun _ ↦ rfl) (by decide)
    fresh_beforeRace hsteps hstep).2 .first x rfl localIdentity.workspaceId .second
      (by decide) hmaker (by
        rw [Group.view_party]
        exact mem_of_handedIn hhanded)
  refine ⟨_, _, tooLate.view Arena.site, x, own, detail, fresh_beforeRace, hsteps, hmaker, ?_, hx⟩
  rw [Group.view_party]
  exact hrest

end Alicerce
