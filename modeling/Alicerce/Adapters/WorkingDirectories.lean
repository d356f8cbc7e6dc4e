import Alicerce.Adapters.BubblewrapArguments
import Alicerce.Adapters.HostFiles

/-!
# Working directories

A working directory is accepted exactly when it is a sequence of names, and these names are all that
any layer adds to the root of the workspace.

* `IsSegment` is a name that leads to an entry of a directory, and can be passed on;
  `isOk_requireWorkingDirectory` says that the sequences of these are accepted.
* `resolveWorkingDirectory_settles`: what the executor resolves is the root extended by the names,
  reached through no link.
* `Unhindered`: that it raises nothing but its own errors depends on the host, since looking whether
  a name is a link, or resolving the path, may fail in ways that are not caught.
* `workingDirectory_exact` puts it together, with what the sandbox is told.
-/

set_option autoImplicit false

namespace Alicerce

open Py Lib

/-! ## What is accepted -/

/-- The names between the slashes. -/
def segments (value : Text) : List Text := if value = text "." then [] else value.splitOn slash

/-- A name that leads to an entry of a directory, and can be passed on. -/
def IsSegment (segment : Text) : Prop :=
  segment ≠ [] ∧ segment ≠ text "." ∧ segment ≠ text ".."

theorem slash_not_mem_of_mem_splitOn {value segment : Text} (h : segment ∈ value.splitOn slash) :
    slash ∉ segment := by
  induction value generalizing segment with
  | nil =>
    rw [List.splitOn_nil, List.mem_singleton] at h
    rw [h]
    exact List.not_mem_nil
  | cons c value ih =>
    rw [List.splitOn_cons_eq_if_modifyHead] at h
    obtain ⟨first, rest, hsplit⟩ := List.exists_cons_of_ne_nil (List.splitOn_ne_nil slash value)
    rw [hsplit] at h ih
    by_cases hc : c = slash
    · rw [if_pos (beq_iff_eq.mpr hc)] at h
      rcases List.mem_cons.mp h with rfl | h
      · exact List.not_mem_nil
      · exact ih h
    · rw [if_neg (fun h ↦ hc (beq_iff_eq.mp h)), List.modifyHead_cons] at h
      rcases List.mem_cons.mp h with rfl | h
      · rw [List.mem_cons, not_or]
        exact ⟨fun heq ↦ hc heq.symm, ih List.mem_cons_self⟩
      · exact ih (List.mem_cons_of_mem _ h)

/-- A path is its own normal form exactly when no name is dropped from it. -/
theorem asPosix_eq_self_iff {value : Text} (hdot : value ≠ text ".") :
    asPosix value = value ↔ posixParts value = value.splitOn slash := by
  rw [asPosix]
  constructor
  · intro h
    split at h
    · exact absurd h.symm hdot
    · rename_i hparts
      have hclean : ∀ part ∈ posixParts value, slash ∉ part := fun part hpart ↦
        slash_not_mem_of_mem_splitOn (List.mem_of_mem_filter hpart)
      rw [← List.splitOn_intercalate slash hclean hparts, h]
  · intro h
    rw [if_neg (h ▸ List.splitOn_ne_nil slash value), h, List.intercalate_splitOn]

theorem posixParts_eq_splitOn_iff {value : Text} : posixParts value = value.splitOn slash ↔
    ∀ segment ∈ value.splitOn slash, segment ≠ [] ∧ segment ≠ text "." := by
  rw [posixParts, List.filter_eq_self]
  simp only [decide_eq_true_eq]

/-- **Exactly the sequences of names are accepted.** -/
theorem isOk_requireWorkingDirectory {value : Text} :
    (requireWorkingDirectory value).isOk = true ↔ value = text "." ∨
      (∀ segment ∈ value.splitOn slash, IsSegment segment) ∧
        .scalar (Char.ofNat 0) ∉ value ∧ .scalar '\\' ∉ value := by
  rw [requireWorkingDirectory]
  by_cases hdot : value = text "."
  · rw [if_pos hdot]
    exact iff_of_true rfl (.inl hdot)
  rw [if_neg hdot, or_iff_right hdot]
  constructor
  · intro hok
    split at hok
    · exact absurd hok (by simp [Except.isOk, Except.toBool])
    rename_i hchecks
    simp only [not_or, not_not] at hchecks
    obtain ⟨-, hnul, hbackslash, -, hnormal, hparts⟩ := hchecks
    have hsplit := (asPosix_eq_self_iff hdot).mp hnormal
    refine ⟨fun segment hsegment ↦ ?_, hnul, hbackslash⟩
    obtain ⟨hne, hnot⟩ := posixParts_eq_splitOn_iff.mp hsplit segment hsegment
    refine ⟨hne, hnot, fun hup ↦ hparts ?_⟩
    exact List.any_eq_true.mpr ⟨segment, hsplit ▸ hsegment, decide_eq_true (.inr hup)⟩
  · rintro ⟨hsegments, hnul, hbackslash⟩
    have hsplit : posixParts value = value.splitOn slash :=
      posixParts_eq_splitOn_iff.mpr fun segment hsegment ↦
        ⟨(hsegments segment hsegment).1, (hsegments segment hsegment).2.1⟩
    have hempty : value ≠ [] := by
      rintro rfl
      exact (hsegments [] (by simp [List.splitOn_nil])).1 rfl
    have habsolute : value.head? ≠ some slash := by
      intro hhead
      obtain ⟨rest, rfl⟩ := List.head?_eq_some_iff.mp hhead
      refine (hsegments [] ?_).1 rfl
      rw [List.splitOn_cons_eq_if_modifyHead, if_pos (beq_self_eq_true slash)]
      exact List.mem_cons_self
    have hup : ¬(posixParts value).any (fun part ↦ part = text "." ∨ part = text "..") = true := by
      rw [List.any_eq_true]
      rintro ⟨part, hpart, hdots⟩
      obtain ⟨-, hdot', hdotdot⟩ := hsegments part (hsplit ▸ hpart)
      exact (of_decide_eq_true hdots).elim hdot' hdotdot
    rw [if_neg]
    · rfl
    · simp only [not_or, not_not]
      exact ⟨hempty, hnul, hbackslash, habsolute, (asPosix_eq_self_iff hdot).mpr hsplit, hup⟩

/-- What is accepted has names between its slashes. -/
theorem isSegment_of_accepted {relative : WorkingDirectory} {segment : Text}
    (h : segment ∈ segments relative.value) : IsSegment segment := by
  rw [segments] at h
  split at h
  · exact absurd h List.not_mem_nil
  · rename_i hdot
    rcases isOk_requireWorkingDirectory.mp relative.valid with heq | ⟨hsegments, -⟩
    · exact absurd heq hdot
    · exact hsegments segment h

theorem isName_of_accepted {relative : WorkingDirectory} {segment : Text}
    (h : segment ∈ segments relative.value) : IsName segment := by
  obtain ⟨hne, hdot, -⟩ := isSegment_of_accepted h
  refine ⟨?_, hne, hdot⟩
  rw [segments] at h
  split at h
  · exact absurd h List.not_mem_nil
  · exact slash_not_mem_of_mem_splitOn h

theorem parts_of_accepted (relative : WorkingDirectory) :
    (if relative.value = text "." then [] else posixParts relative.value) =
      segments relative.value := by
  rw [segments]
  split
  · rfl
  · rename_i hdot
    rcases isOk_requireWorkingDirectory.mp relative.valid with heq | ⟨hsegments, -⟩
    · exact absurd heq hdot
    · exact posixParts_eq_splitOn_iff.mpr fun segment hsegment ↦
        ⟨(hsegments segment hsegment).1, (hsegments segment hsegment).2.1⟩

/-! ## What is resolved -/

/-- Of a host whose answers do not change: no look at a name raises, and resolving what is no link
raises an `OSError` or nothing. -/
def Unhindered (host : (call : OsCall) → call.Answer) : Path → List Text → Prop
  | candidate, [] =>
    (∀ e, host (.resolve candidate) = .error e → ∃ error, e = .os error) ∧
      ∀ resolved, host (.resolve candidate) = .ok resolved →
        ∃ isDir, host (.isDir resolved) = .ok isDir
  | candidate, part :: parts =>
    ∃ isLink, host (.isSymlink (candidate.join part)) = .ok isLink ∧
      (isLink = false → Unhindered host (candidate.join part) parts)

section

variable {host : (call : OsCall) → call.Answer} {tree : HostTree} {candidate root resolved : Path}
  {parts : List Text} {relative : WorkingDirectory}

theorem unhindered_cons_of_no_link {part : Text}
    (h : host (.isSymlink (candidate.join part)) = .ok false) :
    Unhindered host candidate (part :: parts) ↔ Unhindered host (candidate.join part) parts := by
  rw [Unhindered, h]
  constructor
  · rintro ⟨isLink, hok, hrest⟩
    exact hrest (Except.ok.inj hok).symm
  · exact fun hrest ↦ ⟨false, rfl, fun _ ↦ hrest⟩

theorem unhindered_cons_of_link {part : Text}
    (h : host (.isSymlink (candidate.join part)) = .ok true) :
    Unhindered host candidate (part :: parts) := ⟨true, h, fun h ↦ absurd h (by simp)⟩

theorem not_unhindered_cons_of_error {part : Text} {e : OsError}
    (h : host (.isSymlink (candidate.join part)) = .error e) :
    ¬Unhindered host candidate (part :: parts) := by
  rintro ⟨isLink, hok, -⟩
  rw [h] at hok
  exact absurd hok (by simp)

/-- What the way down comes to: the end, where nothing was a link; a link; or an error. -/
theorem descend_settles (hparts : ∀ part ∈ parts, IsName part) :
    ((descend candidate parts).settle host = some (.ok ⟨candidate.parts ++ parts⟩) ∧
        (∀ front, front ≠ [] → front <+: parts →
          host (.isSymlink ⟨candidate.parts ++ front⟩) = .ok false) ∧
        (Unhindered host candidate parts ↔ Unhindered host ⟨candidate.parts ++ parts⟩ [])) ∨
      ((descend candidate parts).settle host = some (.error (commandExecutionError .isolationFailure
          "working directory traverses a symlink")) ∧ Unhindered host candidate parts) ∨
      ∃ error : OsError, (descend candidate parts).settle host = some (.error error.toExc) ∧
        ¬Unhindered host candidate parts := by
  induction parts generalizing candidate with
  | nil =>
    refine .inl ⟨?_, ?_, ?_⟩
    · rw [List.append_nil]
      rfl
    · exact fun front hne hbefore ↦ absurd (List.prefix_nil.mp hbefore) hne
    · rw [List.append_nil]
  | cons part parts ih =>
    obtain ⟨hpart, hparts⟩ := List.forall_mem_cons.mp hparts
    have hjoin : candidate.join part = ⟨candidate.parts ++ [part]⟩ := Path.join_of_isName hpart
    have hlook : (Os.isSymlink (candidate.join part)).settle host =
        some ((host (.isSymlink (candidate.join part))).mapError OsError.toExc) := rfl
    rw [descend]
    cases hanswer : host (.isSymlink (candidate.join part)) with
    | error e =>
      rw [hanswer] at hlook
      exact .inr (.inr ⟨e, Action.settle_bind_error hlook, not_unhindered_cons_of_error hanswer⟩)
    | ok isLink =>
      rw [hanswer] at hlook
      rw [Action.settle_bind_ok hlook]
      cases isLink with
      | true => exact .inr (.inl ⟨rfl, unhindered_cons_of_link hanswer⟩)
      | false =>
        have hpath : candidate.parts ++ part :: parts = (candidate.join part).parts ++ parts := by
          rw [hjoin, List.append_assoc]
          rfl
        rw [if_neg (by simp), unhindered_cons_of_no_link hanswer, hpath]
        rcases ih hparts with ⟨hend, hlinks, hrest⟩ | hlink | herror
        · refine .inl ⟨hend, fun front hne hbefore ↦ ?_, hrest⟩
          obtain ⟨name, front, rfl⟩ := List.exists_cons_of_ne_nil hne
          obtain ⟨rfl, hfrontBefore⟩ := List.cons_prefix_cons.mp hbefore
          rcases eq_or_ne front [] with rfl | hfront
          · rw [← hjoin]
            exact hanswer
          · have hdeep := hlinks front hfront hfrontBefore
            rw [hjoin, List.append_assoc] at hdeep
            exact hdeep
        · exact .inr (.inl hlink)
        · exact .inr (.inr herror)

/-- What `_resolve_working_directory` does at the end of the way. -/
def confirmDirectory (root candidate : Path) : Os Path := do
  let resolved ← Os.translate Exc.isOsError
    (fun _ ↦ commandExecutionError .isolationFailure "working directory is unavailable")
    (Os.resolve candidate)
  if ← Os.or (do return !(← Os.isDir resolved)) (pure (decide ¬resolved.IsRelativeTo root)) then
    .raise (commandExecutionError .isolationFailure "working directory escapes its workspace")
  else return resolved

theorem resolveWorkingDirectory_eq : resolveWorkingDirectory root relative =
    descend root (segments relative.value) >>= confirmDirectory root := by
  rw [resolveWorkingDirectory, parts_of_accepted]
  rfl

/-- At the end of the way, a directory is what the host says it is. -/
theorem confirmDirectory_settles (host : (call : OsCall) → call.Answer) (root candidate : Path) :
    ∃ x, (confirmDirectory root candidate).settle host = some x ∧
      (∀ resolved, x = .ok resolved →
        host (.resolve candidate) = .ok resolved ∧ host (.isDir resolved) = .ok true) ∧
      ((∀ e, x = .error e → e.isCommandExecutionError = true) ↔ Unhindered host candidate []) := by
  let unavailable := commandExecutionError .isolationFailure "working directory is unavailable"
  have hresolve : (Os.translate Exc.isOsError (fun _ ↦ unavailable) (Os.resolve candidate)).settle
      host = some (Py.translate Exc.isOsError (fun _ ↦ unavailable)
        ((host (.resolve candidate)).mapError ResolveError.toExc)) := Os.settle_translate rfl
  rw [confirmDirectory, Unhindered]
  cases hanswer : host (.resolve candidate) with
  | error e =>
    rw [hanswer] at hresolve
    refine ⟨_, Action.settle_bind_error hresolve, fun resolved h ↦ absurd h (by simp), ?_⟩
    cases e with
    | os error =>
      refine iff_of_true (fun e he ↦ ?_) ⟨fun e he ↦ ⟨error, (Except.error.inj he).symm⟩,
        fun resolved h ↦ absurd h (by simp)⟩
      obtain rfl := Except.error.inj he
      rfl
    | loop message =>
      refine iff_of_false (fun h ↦ ?_) fun h ↦ ?_
      · exact absurd (h _ rfl) (by simp [ResolveError.toExc, Exc.isOsError,
          Exc.isCommandExecutionError])
      · obtain ⟨error, herror⟩ := h.1 _ rfl
        exact absurd herror (by simp)
    | encode =>
      refine iff_of_false (fun h ↦ ?_) fun h ↦ ?_
      · exact absurd (h _ rfl) (by decide)
      · obtain ⟨error, herror⟩ := h.1 _ rfl
        exact absurd herror (by simp)
  | ok resolved =>
    rw [hanswer] at hresolve
    rw [Action.settle_bind_ok hresolve]
    have hlook : (Os.isDir resolved).settle host =
        some ((host (.isDir resolved)).mapError OsError.toExc) := rfl
    cases hdir : host (.isDir resolved) with
    | error e =>
      rw [hdir] at hlook
      have hnot := Action.settle_bind_error (f := fun isDir ↦ pure !isDir) hlook
      refine ⟨.error e.toExc, Action.settle_bind_error (Action.settle_bind_error hnot),
        fun resolved h ↦ absurd h (by simp), ?_⟩
      refine iff_of_false (fun h ↦ ?_) fun h ↦ ?_
      · exact absurd (h _ rfl) (by simp [OsError.toExc, Exc.isCommandExecutionError])
      · obtain ⟨isDir, hisDir⟩ := h.2 resolved rfl
        rw [hdir] at hisDir
        exact absurd hisDir (by simp)
    | ok isDir =>
      rw [hdir] at hlook
      have hnot := Action.settle_bind_ok (f := fun isDir ↦ (pure !isDir : Os Bool)) hlook
      have hfree : Unhindered host candidate [] := by
        refine ⟨fun e he ↦ absurd (hanswer.symm.trans he) (by simp), fun other hother ↦ ?_⟩
        obtain rfl := Except.ok.inj (hanswer.symm.trans hother)
        exact ⟨isDir, hdir⟩
      rw [Unhindered, hanswer] at hfree
      have hor : (Os.or (do return !(← Os.isDir resolved))
          (pure (decide ¬resolved.IsRelativeTo root))).settle host =
            some (.ok (!isDir || decide ¬resolved.IsRelativeTo root)) := by
        rw [Os.or]
        refine (Action.settle_bind_ok hnot).trans ?_
        cases isDir <;> rfl
      rw [Action.settle_bind_ok hor]
      split
      · refine ⟨_, rfl, fun resolved h ↦ absurd h (by simp), iff_of_true (fun e he ↦ ?_) hfree⟩
        obtain rfl := Except.error.inj he
        rfl
      · rename_i hinside
        refine ⟨_, rfl, fun other hother ↦ ?_, iff_of_true (fun e he ↦ absurd he (by simp)) hfree⟩
        obtain rfl := Except.ok.inj hother
        refine ⟨rfl, ?_⟩
        cases isDir with
        | true => exact hdir
        | false => exact absurd rfl hinside

/-- **What resolving a working directory comes to**: the root extended by its names, each of them a
directory and none a link; and an error of the executor otherwise, exactly when the host allows
it. -/
theorem resolveWorkingDirectory_settles (hshows : ∀ call, Shows tree ⟨call, host call⟩)
    (hroot : tree.Settled root.parts) (hnamed : root.Named) :
    ∃ x, (resolveWorkingDirectory root relative).settle host = some x ∧
      (∀ resolved, x = .ok resolved → resolved = ⟨root.parts ++ segments relative.value⟩ ∧
        ∀ front, front <+: segments relative.value →
          tree.node (root.parts ++ front) = some .dir) ∧
      ((∀ e, x = .error e → e.isCommandExecutionError = true) ↔
        Unhindered host root (segments relative.value)) := by
  rw [resolveWorkingDirectory_eq]
  have hparts : ∀ part ∈ segments relative.value, IsName part := fun _ ↦ isName_of_accepted
  rcases descend_settles hparts with ⟨hend, hlinks, hrest⟩ | ⟨hlink, hfree⟩ | ⟨error, herror, hnot⟩
  · rw [Action.settle_bind_ok hend, hrest]
    obtain ⟨x, hx, hdir, hfree⟩ :=
      confirmDirectory_settles host root ⟨root.parts ++ segments relative.value⟩
    refine ⟨x, hx, fun resolved hok ↦ ?_, hfree⟩
    obtain ⟨hresolved, hisDir⟩ := hdir resolved hok
    have hleads : tree.Leads ⟨root.parts ++ segments relative.value⟩ resolved.parts := by
      have htrue := hshows (.resolve ⟨root.parts ++ segments relative.value⟩)
      rw [hresolved] at htrue
      exact htrue
    have hnames : ∀ part ∈ segments relative.value, part ≠ text ".." := fun part hpart ↦
      (isSegment_of_accepted hpart).2.2
    have hfree : ∀ front, front ≠ [] → front <+: segments relative.value →
        ¬tree.LinkAt (root.parts ++ front) := by
      intro front hne hbefore
      have htrue := hshows (.isSymlink ⟨root.parts ++ front⟩)
      rw [hlinks front hne hbefore] at htrue
      exact Shows.not_link htrue
    obtain ⟨hplace, hsettled⟩ := HostTree.eq_of_leads hroot hnamed hnames hfree hleads
    have hparts : resolved = ⟨root.parts ++ segments relative.value⟩ := Path.ext hplace
    refine ⟨hparts, fun front hbefore ↦ ?_⟩
    have hnamedAll : (Path.mk (root.parts ++ segments relative.value)).Named := fun part hpart ↦
      (List.mem_append.mp hpart).elim (hnamed part) (hnames part)
    have hdirectory : tree.node (root.parts ++ segments relative.value) = some .dir := by
      have htrue := hshows (.isDir resolved)
      rw [hisDir, hparts] at htrue
      obtain ⟨place, hplace, hnode⟩ := htrue.1 rfl
      rwa [(HostTree.leads_of_settled hsettled hnamedAll).mp hplace] at hnode
    rcases eq_or_ne front (segments relative.value) with rfl | hne
    · exact hdirectory
    · exact FileTree.dir_of_below hdirectory ((List.prefix_append_right_inj _).mpr hbefore)
        fun heq ↦ hne (List.append_cancel_left heq)
  · refine ⟨_, Action.settle_bind_error hlink, fun resolved h ↦ absurd h (by simp), ?_⟩
    refine iff_of_true (fun e he ↦ ?_) hfree
    obtain rfl := Except.error.inj he
    rfl
  · refine ⟨_, Action.settle_bind_error herror, fun resolved h ↦ absurd h (by simp), ?_⟩
    exact iff_of_false (fun h ↦ absurd (h _ rfl)
      (by simp [OsError.toExc, Exc.isCommandExecutionError])) hnot

end

/-- **A working directory is a sequence of names, and stays what it is through every layer**: from
the text over the host to the sandbox; and where it is refused, the executor says so, exactly when
nothing but an `OSError` of the resolution stands in the way. -/
theorem workingDirectory_exact (value : Text) (tree : HostTree)
    (host : (call : OsCall) → call.Answer) (root : Path) (relative : WorkingDirectory)
    (hshows : ∀ call, Shows tree ⟨call, host call⟩) (hroot : tree.Settled root.parts)
    (hnamed : root.Named) :
    ((requireWorkingDirectory value).isOk = true ↔ value = text "." ∨
      (∀ segment ∈ value.splitOn slash, IsSegment segment) ∧
        .scalar (Char.ofNat 0) ∉ value ∧ .scalar '\\' ∉ value) ∧
    ∃ x, (resolveWorkingDirectory root relative).settle host = some x ∧
      (∀ resolved, x = .ok resolved →
        resolved = ⟨root.parts ++ segments relative.value⟩ ∧
        (∀ front, front <+: segments relative.value →
          tree.node (root.parts ++ front) = some .dir) ∧
        ∀ g backend invocation, Knows g → invocation.workspaceRoot = root →
          invocation.workingDirectory = resolved → ∃ words options command,
            LinuxProcessSandboxBackend.buildCommand backend invocation =
              .ok (backend.bubblewrap.path.str :: words) ∧
            g.parse words = some (options, command) ∧
            OptionGrammar.operandsOf (text "--chdir") options =
              [[Path.str ⟨text "workspace" :: segments relative.value⟩]]) ∧
      ((∀ e, x = .error e → e.isCommandExecutionError = true) ↔
        Unhindered host root (segments relative.value)) := by
  refine ⟨isOk_requireWorkingDirectory, ?_⟩
  obtain ⟨x, hx, hresolved, hfree⟩ := resolveWorkingDirectory_settles hshows hroot hnamed
  refine ⟨x, hx, fun resolved hok ↦ ?_, hfree⟩
  obtain ⟨rfl, hdirs⟩ := hresolved resolved hok
  refine ⟨rfl, hdirs, ?_⟩
  rintro g backend invocation hg rfl hdirectory
  have hparts : invocation.workingDirectory.parts =
      invocation.workspaceRoot.parts ++ segments relative.value := by rw [hdirectory]
  exact ⟨_, _, _, buildCommand_eq hg.stop hparts,
    OptionGrammar.parse_print (wellFormed_of_arities hg optionsOf_arities),
    operandsOf_chdir⟩

/-- A host with one working directory, and a name it has no bytes for. -/
def oneDirectoryTree : HostTree :=
  FileTree.ofList [(["work"], .dir), (["work", "src"], .dir)] (by decide)

/-- What that host answers. -/
def oneDirectoryHost : (call : OsCall) → call.Answer
  | .isSymlink _ => .ok false
  | .islink _ => false
  | .isDir path =>
    if path = ⟨["work", "src"]⟩ then .ok true else .error ⟨.other, "not found"⟩
  | .resolve path =>
    if path = ⟨["work", "src"]⟩ then .ok path
    else if path = ⟨[text "work", [.surrogate ⟨0, by decide⟩]]⟩ then .error .encode
    else .error (.os ⟨.other, "not found"⟩)
  | .isFile _ | .pathExists _ => .error ⟨.other, "not found"⟩
  | .readFile _ => .error ⟨.other, "not found"⟩
  | .scandir _ => .error ⟨.other, "not found"⟩
  | call => (obligingHost (fun _ ↦ []) [] call).1

theorem oneDirectoryTree_not_linkAt (place : List Text) : ¬oneDirectoryTree.LinkAt place := by
  rintro ⟨n, hn, hlink⟩
  have hdir : n = .dir := by
    rw [show oneDirectoryTree.node place = FileTree.lookup _ place from rfl, FileTree.lookup] at hn
    split at hn
    · exact (Option.some.inj hn).symm
    · obtain ⟨entry, hentry, rfl⟩ := Option.map_eq_some_iff.mp hn
      have hmem := List.mem_of_find?_eq_some hentry
      simp only [List.mem_cons, List.not_mem_nil, or_false] at hmem
      rcases hmem with rfl | rfl <;> rfl
  rw [hdir] at hlink
  exact hlink

theorem oneDirectoryHost_shows (call : OsCall) :
    Shows oneDirectoryTree ⟨call, oneDirectoryHost call⟩ := by
  have hdir : oneDirectoryTree.node [text "work", text "src"] = some .dir := rfl
  have hnamed : (Path.mk [text "work", text "src"]).Named := by decide
  have hleads : oneDirectoryTree.Leads ⟨["work", "src"]⟩ ["work", "src"] :=
    (HostTree.leads_of_settled (FileTree.settled_of_dir hdir) hnamed).mpr rfl
  cases call with
  | isSymlink path | islink path =>
    exact ⟨fun h ↦ absurd h (by simp [oneDirectoryHost]),
      fun hlink ↦ absurd hlink (oneDirectoryTree_not_linkAt _)⟩
  | isDir path =>
    by_cases hpath : path = ⟨["work", "src"]⟩
    · rw [oneDirectoryHost, if_pos hpath, hpath]
      exact ⟨fun _ ↦ ⟨_, hleads, hdir⟩, fun _ ↦ rfl⟩
    · rw [oneDirectoryHost, if_neg hpath]
      trivial
  | resolve path =>
    by_cases hpath : path = ⟨["work", "src"]⟩
    · rw [oneDirectoryHost, if_pos hpath, hpath]
      exact hleads
    · rw [oneDirectoryHost, if_neg hpath]
      split <;> trivial
  | _ => trivial

/-- A name without bytes is a working directory, and escapes from the executor as it is. -/
theorem workingDirectory_escapes : ∃ relative : WorkingDirectory,
    (∀ call, Shows oneDirectoryTree ⟨call, oneDirectoryHost call⟩) ∧
      oneDirectoryTree.Settled [text "work"] ∧
      (resolveWorkingDirectory ⟨["work"]⟩ relative).settle oneDirectoryHost =
        some (.error .unicodeEncodeError) :=
  ⟨⟨[.surrogate ⟨0, by decide⟩], by decide +kernel⟩, oneDirectoryHost_shows,
    FileTree.settled_of_dir rfl, by decide +kernel⟩

/-- The directory it has. -/
def srcDirectory : WorkingDirectory := ⟨"src", by decide +kernel⟩

theorem workingDirectory_exact_src :
    (resolveWorkingDirectory ⟨["work"]⟩ srcDirectory).settle oneDirectoryHost =
      some (.ok ⟨["work", "src"]⟩) ∧
    Unhindered oneDirectoryHost ⟨["work"]⟩ (segments srcDirectory.value) := by
  obtain ⟨x, hx, -, hfree⟩ := (workingDirectory_exact "src" oneDirectoryTree
    oneDirectoryHost ⟨["work"]⟩ srcDirectory oneDirectoryHost_shows (FileTree.settled_of_dir rfl)
      (by decide)).2
  have hok : (resolveWorkingDirectory ⟨["work"]⟩ srcDirectory).settle oneDirectoryHost =
      some (.ok ⟨["work", "src"]⟩) := by
    decide +kernel
  refine ⟨hok, hfree.mp fun e he ↦ ?_⟩
  rw [he, hok] at hx
  exact absurd hx (by simp)

end Alicerce
