import ManInTheBox.Guest.Maintainability
import ManInTheBox.Search.Growth

/-! # The search tree is a tree of commits

The policy commits what it finds, hangs the commit under the one it had selected and checks out
the next selection on a branch of its own. Whatever is committed in between, the tree is an
image of the history, and no commit in it is lost.
-/

namespace ManInTheBox.Guest

open Library Search Command

/-! ## What holds between two actions -/

theorem branchName_injective (sessionId : String) : Function.Injective (branchName sessionId) := by
  intro count count' h
  unfold branchName at h
  generalize "mitb/maintainability-" ++ sessionId ++ "-" = before at h
  have hlists := congrArg String.toList h
  rw [String.toList_append, String.toList_append, List.append_right_inj] at hlists
  exact Nat.repr_injective (String.toList_injective hlists)

section Invariants

variable {ρ : Type} [F64 ρ] (parent : String → Option String)

/-- The first commit is the second, or one of its ancestors. -/
abbrev Descends : String → String → Prop := Relation.ReflTransGen (IsParent parent)

abbrev StrictlyDescends : String → String → Prop := Relation.TransGen (IsParent parent)

/-- What others may do meanwhile: commit, or move the branch that is checked out to a commit that
descends from it. -/
structure Works (before after : Repository) : Prop where
  commits : before.commits ⊆ after.commits
  known : after.head ∈ after.commits
  head : Descends parent before.head after.head
  branch : after.branch = before.branch
  branches : ∀ name, before.branch ≠ some name → after.branches name = before.branches name

/-- The tree is an image of the history. -/
structure Mirrors (repository : Repository) (navigator : PendingTreeSearch ρ) : Prop where
  keys : ∀ key, navigator.tree.HasKey key → key ∈ repository.commits
  edges : ∀ parentKey childKey, navigator.tree.Edge parentKey childKey →
    StrictlyDescends parent parentKey childKey

/-- Every commit in the tree, except for the root, is the tip of a branch of this kind. -/
def OnBranches (kind : String → Prop) (repository : Repository) (navigator : PendingTreeSearch ρ) : Prop :=
  ∀ key, navigator.tree.HasKey key →
    navigator.tree.keyOf navigator.tree.root = some key ∨
      ∃ name, repository.branches name = some key ∧ kind name

/-- The policy will not create a branch of this name. -/
def Spare (state : PolicyState ρ) (name : String) : Prop :=
  ∀ sessionId, (∀ recorded, state.sessionId = some recorded → recorded = sessionId) →
    ∀ count, state.createdBranchCount < count → name ≠ branchName sessionId count

/-- What holds at any time, also after a failure. -/
def Sound (state : PolicyState ρ) (repository : Repository) : Prop :=
  ∀ search, state.search = some search → Mirrors parent repository search.navigator ∧
    OnBranches (fun _ => True) repository search.navigator

/-- What holds of the search between two actions. -/
structure Ready (state : PolicyState ρ) (repository : Repository)
    (navigator : PendingTreeSearch ρ) : Prop where
  conserved : ∃ completions, Conserved navigator completions
  mirrors : Mirrors parent repository navigator
  kept : OnBranches (fun name => repository.branch ≠ some name ∧ Spare state name) repository navigator
  base : ∀ key, navigator.basePath.getLast? = some key → Descends parent key repository.head
  named : navigator.pendingSelectionPath ≠ none →
    ∃ sessionId, state.sessionId = some sessionId ∧
      repository.branch = some (branchName sessionId state.createdBranchCount)

/-- What holds between two actions, if there have been at most so many. -/
structure Idle (actions : ℕ) (state : PolicyState ρ) (repository : Repository) : Prop where
  few : state.createdBranchCount ≤ actions
  known : repository.head ∈ repository.commits
  spare : ∃ name, repository.branch = some name ∧ Spare state name
  ready : ∀ search, state.search = some search → Ready parent state repository search.navigator

end Invariants

section Steps

variable {ρ : Type} [F64 ρ] {parent : String → Option String} {actions : ℕ}
  {state : PolicyState ρ} {repository : Repository} {sha : String}

omit [F64 ρ] in
theorem OnBranches.mono {kind kind' : String → Prop} {navigator : PendingTreeSearch ρ}
    (h : OnBranches kind repository navigator) (himp : ∀ name, kind name → kind' name) :
    OnBranches kind' repository navigator := by
  intro key hkey
  rcases h key hkey with hroot | ⟨name, htip, hkind⟩
  · exact .inl hroot
  · exact .inr ⟨name, htip, himp name hkind⟩

theorem Idle.sound (h : Idle parent actions state repository) : Sound parent state repository :=
  fun search hsearch =>
    ⟨(h.ready search hsearch).mirrors, (h.ready search hsearch).kept.mono fun _ _ => trivial⟩

/-- Others work between two actions. -/
theorem Idle.works (h : Idle parent actions state repository) {repository' : Repository}
    (hworks : Works parent repository repository') : Idle parent actions state repository' where
  few := h.few
  known := hworks.known
  spare := by
    rw [hworks.branch]
    exact h.spare
  ready search hsearch := by
    have hready := h.ready search hsearch
    refine ⟨hready.conserved, ⟨fun key hkey => hworks.commits (hready.mirrors.keys key hkey),
      hready.mirrors.edges⟩, ?_, fun key hkey => (hready.base key hkey).trans hworks.head, ?_⟩
    · intro key hkey
      rcases hready.kept key hkey with hroot | ⟨name, htip, hother, hspare⟩
      · exact .inl hroot
      · exact .inr ⟨name, (hworks.branches name hother).trans htip, hworks.branch ▸ hother, hspare⟩
    · rw [hworks.branch]
      exact hready.named

/-- A commit of the policy, before the search knows of it. -/
theorem Idle.sound_commit (h : Idle parent actions state repository) (sha : String) :
    Sound parent state (repository.commit sha) := by
  intro search hsearch
  have hready := h.ready search hsearch
  refine ⟨⟨fun key hkey => .inr (hready.mirrors.keys key hkey), hready.mirrors.edges⟩, ?_⟩
  intro key hkey
  rcases hready.kept key hkey with hroot | ⟨name, htip, hother, -⟩
  · exact .inl hroot
  · refine .inr ⟨name, ?_, trivial⟩
    rw [Repository.commit]
    simp only [if_neg hother, htip]

/-- A search that knows of the commit that is checked out only. -/
theorem ready_fresh [FloatMath ρ] (hknown : repository.head ∈ repository.commits)
    (hsha : sha = repository.head) (config : MctsConfig ρ) :
    Ready parent state repository (.withTree (.fresh sha config none)) := by
  have hkeyOf (i : ℕ) (key : String)
      (hkey : (Mcts.fresh sha config none).keyOf i = some key) : i = 0 ∧ key = sha := by
    have hlt := Mcts.lt_of_keyOf hkey
    obtain rfl : i = 0 := by simpa [Mcts.fresh] using hlt
    exact ⟨rfl, (Option.some.inj hkey).symm⟩
  refine ⟨⟨[], conserved_of_run .start⟩, ⟨?_, ?_⟩, ?_, ?_, fun hpending => absurd rfl hpending⟩
  · rintro key ⟨i, hkey⟩
    rw [(hkeyOf i key hkey).2, hsha]
    exact hknown
  · rintro parentKey childKey ⟨p, i, -, hi, hlink⟩
    obtain ⟨rfl, -⟩ := hkeyOf i childKey hi
    cases hlink
  · rintro key ⟨i, hkey⟩
    obtain ⟨rfl, rfl⟩ := hkeyOf i key hkey
    exact .inl rfl
  · rintro key hkey
    obtain rfl : sha = key := Option.some.inj hkey
    rw [hsha]

variable {search : SearchState ρ} {navigator : PendingTreeSearch ρ}

/-- The search hangs the commit under the one it had selected. -/
theorem Idle.mirrors_grown (h : Idle parent actions state repository)
    (hsearch : state.search = some search) (hparent : parent sha = some repository.head)
    (hgrown : Grown search.navigator sha navigator.tree) :
    Mirrors parent (repository.commit sha) navigator := by
  have hready := h.ready search hsearch
  constructor
  · intro key hkey
    rcases hgrown.keys key hkey with hold | rfl
    · exact .inr (hready.mirrors.keys key hold)
    · exact .inl rfl
  · intro parentKey childKey hedge
    rcases hgrown.edges parentKey childKey hedge with hold | ⟨rfl, hbase⟩
    · exact hready.mirrors.edges parentKey childKey hold
    · exact .tail' (hready.base parentKey hbase) hparent

/-- The commit is the tip of the branch that is checked out. -/
theorem Idle.kept_grown (h : Idle parent actions state repository)
    (hsearch : state.search = some search)
    (hgrown : Grown search.navigator sha navigator.tree) :
    OnBranches (Spare state) (repository.commit sha) navigator := by
  have hready := h.ready search hsearch
  obtain ⟨current, hcurrent, hspare⟩ := h.spare
  intro key hkey
  rcases hgrown.keys key hkey with hold | rfl
  · rcases hready.kept key hold with hroot | ⟨name, htip, hother, hname⟩
    · left
      rw [hgrown.stays.root]
      exact hgrown.stays.keyOf _ _ hroot
    · refine .inr ⟨name, ?_, hname⟩
      rw [Repository.commit]
      simp only [if_neg hother, htip]
  · refine .inr ⟨current, ?_, hspare⟩
    rw [Repository.commit]
    simp only [if_pos hcurrent]

/-- The state in which the next selection is checked out. -/
def PolicyState.nextBranch (state : PolicyState ρ) (search : SearchState ρ) : PolicyState ρ :=
  { state with
    createdBranchCount := saturatingSucc state.createdBranchCount
    search := some search }

theorem Idle.next (h : Idle parent actions state repository) (hfew : actions < 2 ^ 64 - 1)
    {sessionId : String} (hsession : state.sessionId = some sessionId)
    (hsearch : state.search = some search) (hparent : parent sha = some repository.head)
    (hgrown : Grown search.navigator sha navigator.tree)
    (hconserved : ∃ completions, Conserved navigator completions) {path : List String}
    {selectedKey : String} (hpending : navigator.pendingSelectionPath = some path)
    (hlast : path.getLast? = some selectedKey) {next : PolicyState ρ}
    {best : Option (BestRewardCommit ρ)} (hnext : next = state.nextBranch ⟨navigator, best⟩) :
    Idle parent (actions + 1) next
      ((repository.commit sha).checkout (branchName sessionId next.createdBranchCount)
        selectedKey) := by
  subst hnext
  have hcount : (state.nextBranch ⟨navigator, best⟩).createdBranchCount =
      state.createdBranchCount + 1 := by
    have hle := h.few
    change min (state.createdBranchCount + 1) (2 ^ 64 - 1) = _
    omega
  have hmirrors := h.mirrors_grown hsearch hparent hgrown
  have hspare {name : String} (hname : Spare state name) :
      name ≠ branchName sessionId (state.nextBranch ⟨navigator, best⟩).createdBranchCount ∧
        Spare (state.nextBranch ⟨navigator, best⟩) name := by
    constructor
    · refine hname sessionId (fun recorded hrecorded => ?_) _ (by omega)
      exact Option.some.inj (hrecorded.symm.trans hsession)
    · intro sessionId' hagrees count hlt
      exact hname sessionId' hagrees count (by omega)
  have hselected : navigator.tree.HasKey selectedKey := by
    obtain ⟨completions, hconserved⟩ := hconserved
    obtain ⟨last, hto⟩ := hconserved.pending path hpending
    exact ⟨last, hto.getLast?.trans hlast⟩
  have hbase : navigator.basePath = path := by
    rw [PendingTreeSearch.basePath, hpending]
    rfl
  refine ⟨by have := h.few; omega, hmirrors.keys selectedKey hselected, ⟨_, rfl, ?_⟩, ?_⟩
  · intro sessionId' hagrees count hlt heq
    obtain rfl : sessionId = sessionId' := hagrees sessionId hsession
    exact hlt.ne (branchName_injective sessionId heq)
  · intro search' hsearch'
    obtain rfl := Option.some.inj hsearch'
    refine ⟨hconserved, ⟨hmirrors.keys, hmirrors.edges⟩, ?_, ?_, fun _ =>
      ⟨sessionId, hsession, rfl⟩⟩
    · intro key hkey
      rcases h.kept_grown hsearch hgrown key hkey with hroot | ⟨name, htip, hname⟩
      · exact .inl hroot
      · obtain ⟨hother, hname'⟩ := hspare hname
        refine .inr ⟨name, ?_, fun heq => hother (Option.some.inj heq).symm, hname'⟩
        rw [Repository.checkout]
        simp only [if_neg hother, htip]
    · intro key hkey
      rw [hbase, hlast] at hkey
      obtain rfl := Option.some.inj hkey
      exact .refl

end Steps

/-! ## What an action does -/

section Actions

variable {ρ γ : Type} {w : Workplace ρ γ}

/-- Neither the search of the policy nor the repository is touched. -/
def Same (w w' : Workplace ρ γ) : Prop := w'.policy.state = w.policy.state ∧ w'.git = w.git

theorem after_told {α : Type} (result : Except String α) :
    (told result : Acting ρ γ α).After w (fun _ w' => w = w') fun _ w' => w = w' := by
  cases result <;> simp [told]

theorem after_ensureQuery (tools : Tools ρ) (kind query : String)
    {record : ℕ → Maintainability ρ → Maintainability ρ}
    (hrecord : ∀ id policy, (record id policy).state = policy.state) (recorded : Option ℕ) :
    (ensureQuery tools kind query record recorded : Acting ρ γ Unit).After w
      (fun _ w' => Same w w') fun _ w' => Same w w' := by
  cases recorded with
  | some id => exact ⟨rfl, rfl⟩
  | none =>
    refine (after_told _).bind ?_ ?_
    · rintro id w' rfl
      exact ⟨hrecord id _, rfl⟩
    · rintro failure w' rfl
      exact ⟨rfl, rfl⟩

theorem after_ensureQueries (tools : Tools ρ) :
    (ensureQueries tools : Acting ρ γ (ℕ × ℕ)).After w
      (fun _ w' => Same w w') fun _ w' => Same w w' := by
  simp only [ensureQueries, after_bind, after_get]
  refine (after_ensureQuery tools _ _ (by intros; rfl) _).mono ?_ fun _ _ herror => herror
  rintro - w₁ ⟨hstate₁, hgit₁⟩
  refine (after_ensureQuery tools _ _ (by intros; rfl) _).mono ?_ ?_
  · rintro - w₂ ⟨hstate₂, hgit₂⟩
    have hsame : Same w w₂ := ⟨hstate₂.trans hstate₁, hgit₂.trans hgit₁⟩
    split
    · exact hsame
    · exact hsame
  · rintro failure w₂ ⟨hstate₂, hgit₂⟩
    exact ⟨hstate₂.trans hstate₁, hgit₂.trans hgit₁⟩

variable [F64 ρ] [FloatMath ρ] [FloatMeasure ρ] {runProcess : RunProcess γ}
  {view : γ → Repository} {parent : String → Option String} {actions : ℕ}

/-- What holds of a workplace between two actions. -/
abbrev IdleAt (view : γ → Repository) (parent : String → Option String) (actions : ℕ)
    (w : Workplace ρ γ) : Prop :=
  Idle parent actions w.policy.state (view w.git)

abbrev SoundAt (view : γ → Repository) (parent : String → Option String) (w : Workplace ρ γ) :
    Prop :=
  Sound parent w.policy.state (view w.git)

omit [FloatMath ρ] [FloatMeasure ρ] in
theorem Same.idleAt {w' : Workplace ρ γ} (hsame : Same w w') (h : IdleAt view parent actions w) :
    IdleAt view parent actions w' := by
  rw [IdleAt, hsame.1, hsame.2]
  exact h

omit [FloatMath ρ] [FloatMeasure ρ] in
/-- An id for the session narrows down the names that the policy may use. -/
theorem after_ensureSessionIdRecorded (h : IdleAt view parent actions w) (tools : Tools ρ) :
    (ensureSessionIdRecorded tools : Acting ρ γ Unit).After w
      (fun _ w' => IdleAt view parent actions w' ∧
        ∃ sessionId, w'.policy.state.sessionId = some sessionId)
      fun _ w' => SoundAt view parent w' := by
  rw [ensureSessionIdRecorded, modifyPolicy, after_modify]
  cases hsession : w.policy.state.sessionId with
  | some sessionId => exact ⟨h, sessionId, hsession⟩
  | none =>
    refine ⟨?_, _, rfl⟩
    have hspare {name : String} (hname : Spare w.policy.state name) :
        Spare { w.policy.state with
          sessionId := some (generateSessionId tools.randomBytes) } name :=
      fun sessionId _ => hname sessionId fun recorded hrecorded => by
        rw [hsession] at hrecorded
        cases hrecorded
    obtain ⟨current, hcurrent, hname⟩ := h.spare
    refine ⟨h.few, h.known, ⟨current, hcurrent, hspare hname⟩, fun search hsearch => ?_⟩
    have hready := h.ready search hsearch
    refine ⟨hready.conserved, hready.mirrors,
      hready.kept.mono fun name hkept => ⟨hkept.1, hspare hkept.2⟩, hready.base, fun hpending => ?_⟩
    obtain ⟨sessionId, hrecorded, -⟩ := hready.named hpending
    rw [hsession] at hrecorded
    cases hrecorded

/-- A search over the commit that is checked out. -/
theorem after_ensureSearchStateRecorded (hgit : GitOk runProcess gitRepo.repoDir view parent)
    (h : IdleAt view parent actions w) {sessionId : String}
    (hsession : w.policy.state.sessionId = some sessionId) :
    (ensureSearchStateRecorded runProcess : Acting ρ γ Unit).After w
      (fun _ w' => IdleAt view parent actions w' ∧ w'.policy.state.sessionId = some sessionId ∧
        ∃ search, w'.policy.state.search = some search)
      fun _ w' => SoundAt view parent w' := by
  simp only [ensureSearchStateRecorded, after_bind, after_get]
  cases hsearch : w.policy.state.search with
  | some search => exact ⟨h, hsession, search, hsearch⟩
  | none =>
    refine (after_focus.mpr ((hgit.snapshot w.git).mono ?_ ?_)).bind
      (Q := fun snapshot w' => w'.policy = w.policy ∧ view w'.git = view w.git ∧
        snapshot.sha = (view w.git).head)
      (E := fun _ w' => SoundAt view parent w') ?_ fun _ _ herror => herror
    · rintro snapshot g' ⟨hview, hsha⟩
      exact ⟨rfl, hview, hsha⟩
    · intro failure g' hview
      change Sound parent w.policy.state (view g')
      rw [hview]
      exact h.sound
    · rintro snapshot w' ⟨hpolicy, hview, hsha⟩
      rw [putSearchState, modifyPolicy, after_modify]
      refine ⟨?_, by rw [hpolicy]; exact hsession, _, rfl⟩
      have hidle : IdleAt view parent actions w' := by
        rw [IdleAt, hpolicy, hview]
        exact h
      refine ⟨hidle.few, hidle.known, hidle.spare, fun search hsearch' => ?_⟩
      obtain rfl := Option.some.inj hsearch'
      have hsha' : snapshot.sha = (view w'.git).head := by rw [hview, hsha]
      exact ready_fresh hidle.known hsha' _

omit [FloatMath ρ] in
/-- The policy commits what is there. -/
theorem after_commitIterationSnapshot (hgit : GitOk runProcess gitRepo.repoDir view parent)
    (h : IdleAt view parent actions w) (mi : ρ) :
    (commitIterationSnapshot runProcess mi : Acting ρ γ GitSnapshot).After w
      (fun snapshot w' => w'.policy = w.policy ∧ parent snapshot.sha = some (view w.git).head ∧
        view w'.git = (view w.git).commit snapshot.sha)
      fun _ w' => SoundAt view parent w' := by
  have hsound (g : γ) (hview : view g = view w.git ∨
      ∃ sha, parent sha = some (view w.git).head ∧ view g = (view w.git).commit sha) :
      Sound parent w.policy.state (view g) := by
    rcases hview with hview | ⟨sha, -, hview⟩
    · rw [hview]
      exact h.sound
    · rw [hview]
      exact h.sound_commit sha
  simp only [commitIterationSnapshot, onGit, after_bind, after_focus, after_get]
  refine (hgit.addAll w.git).mono ?_ fun _ g hview => hsound g (.inl hview)
  intro _ g₁ hview₁
  refine (hgit.commitAll _ g₁).mono ?_ ?_
  · rintro sha g₂ ⟨hparent, hview₂⟩
    rw [hview₁] at hparent hview₂
    refine (hgit.currentBranch g₂).mono ?_ ?_
    · intro branch g₃ hview₃
      exact ⟨rfl, hparent, hview₃.trans hview₂⟩
    · intro failure g₃ hview₃
      exact hsound g₃ (.inr ⟨sha, hparent, hview₃.trans hview₂⟩)
  · rintro failure g₂ hview₂
    rw [hview₁] at hview₂
    exact hsound g₂ hview₂

/-- The search with its tree grown. -/
def Searched (w w' : Workplace ρ γ) (sha : String) (search : SearchState ρ)
    (navigator : PendingTreeSearch ρ) : Prop :=
  w'.git = w.git ∧
    w'.policy.state = { w.policy.state with search := some { search with navigator } } ∧
    Grown search.navigator sha navigator.tree

omit [FloatMeasure ρ] in
theorem after_backpropagateAndSelect {search : SearchState ρ}
    (hsearch : w.policy.state.search = some search)
    (hconserved : ∃ completions, Conserved search.navigator completions) (sha : String)
    (reward : ρ) :
    (backpropagateAndSelect sha reward : Acting ρ γ SelectionStep).After w
      (fun step w' => ∃ navigator, Searched w w' sha search navigator ∧
        (∃ completions, Conserved navigator completions) ∧
        navigator.pendingSelectionPath = some step.selectedPath ∧
        step.selectedPath.getLast? = some step.selectedKey)
      fun _ w' => ∃ navigator, Searched w w' sha search navigator := by
  obtain ⟨completions, hconserved⟩ := hconserved
  simp only [backpropagateAndSelect, searchState, after_bind, after_get, hsearch, after_pure]
  rcases hcall : search.navigator.backpropagateAndSelect sha reward mctsMaxDepth with
    ⟨navigator, result⟩
  have hcalled : search.navigator.call (.backpropagateAndSelect sha reward mctsMaxDepth) =
      (navigator, .selection result) := by simp only [PendingTreeSearch.call, hcall]
  obtain ⟨hgrown, hresult⟩ :=
    backpropagateAndSelect_grows hconserved.tallied.invariant.linked hcall
  simp only [putSearchState, modifyPolicy, after_modify, after_liftExcept]
  constructor
  · rintro step rfl
    rcases hresult with ⟨⟨failure, herror⟩, -⟩ | ⟨step', hok, hpending, hlast⟩
    · cases herror
    · obtain rfl := Except.ok.inj hok
      exact ⟨navigator, ⟨rfl, rfl, hgrown⟩, ⟨_, hconserved.call hcalled⟩, hpending, hlast⟩
  · rintro failure -
    exact ⟨navigator, rfl, rfl, hgrown⟩

omit [FloatMath ρ] [FloatMeasure ρ] in
/-- Only the record of the best commit changes. -/
theorem after_recordBestRewardCommit {search : SearchState ρ}
    (hsearch : w.policy.state.search = some search) (sha : String) (reward : ρ) :
    (recordBestRewardCommit sha reward : Acting ρ γ (BestRewardCommit ρ)).After w
      (fun _ w' => w'.git = w.git ∧ ∃ best, w'.policy.state =
        { w.policy.state with search := some ⟨search.navigator, best⟩ })
      fun _ _ => False := by
  simp only [recordBestRewardCommit, searchState, after_bind, after_get, hsearch, after_pure,
    putSearchState, modifyPolicy, after_modify]
  exact ⟨trivial, _, rfl⟩

/-- What holds after an action that has succeeded. -/
def Acted (view : γ → Repository) (parent : String → Option String) (actions : ℕ)
    (w : Workplace ρ γ) : Prop :=
  IdleAt view parent actions w ∧ ∃ search, w.policy.state.search = some search ∧
    search.navigator.pendingSelectionPath ≠ none

/-- The reward of a commit is recorded and the next selection checked out. -/
theorem after_navigateRewardLandscape (hgit : GitOk runProcess gitRepo.repoDir view parent)
    {repository : Repository} (h : Idle parent actions w.policy.state repository)
    (hfew : actions < 2 ^ 64 - 1) {sessionId : String}
    (hsession : w.policy.state.sessionId = some sessionId) {search : SearchState ρ}
    (hsearch : w.policy.state.search = some search) {snapshot : GitSnapshot}
    (hparent : parent snapshot.sha = some repository.head)
    (hview : view w.git = repository.commit snapshot.sha) (reward : ρ) :
    (navigateRewardLandscape runProcess reward snapshot : Acting ρ γ Unit).After w
      (fun _ w' => Acted view parent (actions + 1) w')
      fun _ w' => SoundAt view parent w' := by
  have hready := h.ready search hsearch
  -- Whatever the record of the best commit and the number of branches are.
  have hsound {navigator : PendingTreeSearch ρ}
      (hgrown : Grown search.navigator snapshot.sha navigator.tree)
      {state : PolicyState ρ} {best : Option (BestRewardCommit ρ)}
      (hstate : state.search = some ⟨navigator, best⟩) :
      Sound parent state (repository.commit snapshot.sha) := by
    intro search' hsearch'
    obtain rfl := Option.some.inj (hstate.symm.trans hsearch')
    exact ⟨h.mirrors_grown hsearch hparent hgrown,
      (h.kept_grown hsearch hgrown).mono fun _ _ => trivial⟩
  simp only [navigateRewardLandscape, after_bind]
  refine (after_backpropagateAndSelect hsearch hready.conserved _ _).mono ?_ ?_
  · rintro step w₁ ⟨navigator, ⟨hgit₁, hstate₁, hgrown⟩, hconserved, hpending, hlast⟩
    have hsearch₁ : w₁.policy.state.search = some { search with navigator } := by rw [hstate₁]
    refine (after_recordBestRewardCommit hsearch₁ _ _).mono ?_ fun _ _ => False.elim
    rintro _ w₂ ⟨hgit₂, best, hstate₂⟩
    have hview₂ : view w₂.git = repository.commit snapshot.sha := by rw [hgit₂, hgit₁, hview]
    have hsession₂ : w₂.policy.state.sessionId = some sessionId := by rw [hstate₂, hstate₁, hsession]
    simp only [checkoutSelectedCommit, nextSearchBranchName, onGit, modifyPolicy, after_bind,
      after_get, hsession₂, after_modify, after_pure, after_focus]
    have hstate : (⟨some sessionId, saturatingSucc w₂.policy.state.createdBranchCount,
        w₂.policy.state.search⟩ : PolicyState ρ) = w.policy.state.nextBranch ⟨navigator, best⟩ := by
      rw [hstate₂, hstate₁, ← hsession]
      rfl
    have hnext := h.next hfew hsession hsearch hparent hgrown hconserved hpending hlast hstate
    rw [← hview₂] at hnext
    have hselected : step.selectedKey ∈ (view w₂.git).commits := hnext.known
    refine (hgit.switchCreateOrReset _ hselected).mono ?_ ?_
    · intro _ g hview₃
      refine ⟨?_, ⟨navigator, best⟩, by rw [hstate₂], by simp [hpending]⟩
      change Idle parent (actions + 1) ⟨some sessionId, _, w₂.policy.state.search⟩ (view g)
      rw [hview₃]
      exact hnext
    · rintro failure g (hview₃ | hview₃)
      · change Sound parent ⟨some sessionId, _, w₂.policy.state.search⟩ (view g)
        rw [hview₃, hview₂]
        exact hsound hgrown (by rw [hstate₂])
      · change Sound parent ⟨some sessionId, _, w₂.policy.state.search⟩ (view g)
        rw [hview₃]
        exact hnext.sound
  · rintro failure w₁ ⟨navigator, hgit₁, hstate₁, hgrown⟩
    rw [SoundAt, hgit₁, hview]
    exact hsound hgrown (by rw [hstate₁])

theorem after_act (hgit : GitOk runProcess gitRepo.repoDir view parent)
    (h : IdleAt view parent actions w) (hfew : actions < 2 ^ 64 - 1) (tools : Tools ρ) :
    (act runProcess tools : Acting ρ γ Host.Action).After w
      (fun _ w' => Acted view parent (actions + 1) w')
      fun _ w' => SoundAt view parent w' := by
  simp only [act, modifyPolicy, after_bind, after_modify, after_pure]
  refine (after_ensureQueries tools).mono ?_ fun failure w₁ hsame => (hsame.idleAt h).sound
  rintro ⟨cyclomaticQueryId, halsteadQueryId⟩ w₁ hsame
  refine (after_ensureSessionIdRecorded (hsame.idleAt h) tools).mono ?_ fun _ _ herror => herror
  rintro - w₂ ⟨h₂, sessionId, hsession₂⟩
  refine (after_ensureSearchStateRecorded hgit h₂ hsession₂).mono ?_ fun _ _ herror => herror
  rintro - w₃ ⟨h₃, hsession₃, search, hsearch₃⟩
  -- The files are found and measured.
  refine (after_told tools.find).mono ?_ fun _ _ heq => heq ▸ h₃.sound
  rintro files _ rfl
  refine (after_told tools.countLines).mono ?_ fun _ _ heq => heq ▸ h₃.sound
  rintro loc _ rfl
  refine (after_told (measure tools cyclomaticQueryId halsteadQueryId files)).mono ?_
    fun _ _ heq => heq ▸ h₃.sound
  rintro ⟨mi, reward⟩ _ rfl
  refine (after_commitIterationSnapshot hgit h₃ mi).mono ?_ fun _ _ herror => herror
  rintro snapshot w₄ ⟨hpolicy₄, hparent, hview₄⟩
  have hsound₄ : SoundAt view parent w₄ := by
    rw [SoundAt, hpolicy₄, hview₄]
    exact h₃.sound_commit snapshot.sha
  refine (after_told (tools.reportReward reward)).mono ?_ fun _ _ heq => heq ▸ hsound₄
  rintro - _ rfl
  rw [← hpolicy₄] at hsession₃ hsearch₃
  have h₄ : Idle parent actions w₄.policy.state (view w₃.git) := by
    rw [hpolicy₄]
    exact h₃
  exact after_navigateRewardLandscape hgit h₄ hfew hsession₃ hsearch₃ hparent hview₄ reward

/-! ## What holds in a session -/

/-- What holds of a session after so many steps. -/
structure Consistent (view : γ → Repository) (parent : String → Option String) (steps : ℕ)
    (s : PolicySession ρ γ) : Prop where
  idle : s.failed = none → IdleAt view parent steps s.workplace
  pending : s.failed = none → ∀ search, s.workplace.policy.state.search = some search →
    search.navigator.pendingSelectionPath ≠ none
  sound : SoundAt view parent s.workplace

omit [FloatMath ρ] [FloatMeasure ρ] in
theorem Idle.mono {state : PolicyState ρ} {repository : Repository}
    (h : Idle parent actions state repository) {more : ℕ} (hle : actions ≤ more) :
    Idle parent more state repository :=
  ⟨h.few.trans hle, h.known, h.spare, h.ready⟩

theorem Consistent.step {s s' : PolicySession ρ γ} {label : PolicyStep ρ γ}
    {output : Option Host.Action} (hgit : GitOk runProcess gitRepo.repoDir view parent)
    (h : Consistent view parent actions s) (hfew : actions < 2 ^ 64 - 1)
    (taken : s.step runProcess label = some (s', output))
    (hworks : ∀ git, label = .work git → Works parent (view s.workplace.git) (view git)) :
    Consistent view parent (actions + 1) s' := by
  cases label with
  | act tools =>
    have hact (hfailed : s.failed = none) := after_act hgit (h.idle hfailed) hfew tools
    unfold After at hact
    simp only [PolicySession.step] at taken
    split at taken
    · cases taken
    · rename_i action workplace hfailed houtcome
      obtain rfl := (Prod.mk.inj (Option.some.inj taken)).1
      have hacted := hact hfailed
      simp only [houtcome] at hacted
      obtain ⟨hidle, search, hsearch, hpending⟩ := hacted
      refine ⟨fun _ => hidle, fun _ search' hsearch' => ?_, hidle.sound⟩
      obtain rfl := Option.some.inj (hsearch.symm.trans hsearch')
      exact hpending
    · rename_i failure workplace hfailed houtcome
      obtain rfl := (Prod.mk.inj (Option.some.inj taken)).1
      have hsound := hact hfailed
      simp only [houtcome] at hsound
      exact ⟨fun hnone => (by cases hnone), fun hnone => (by cases hnone), hsound⟩
  | work git =>
    simp only [PolicySession.step] at taken
    split at taken
    · cases taken
    · rename_i hfailed
      obtain rfl := (Prod.mk.inj (Option.some.inj taken)).1
      have hidle := (h.idle hfailed).works (hworks git rfl)
      exact ⟨fun _ => hidle.mono (Nat.le_succ actions), fun _ => h.pending hfailed, hidle.sound⟩

/-- In every session of fewer than `2 ^ 64` steps that begins on a branch with a name no branch of the
policy has, as long as the others only add to what is checked out: the commits in the search tree
are commits of the repository, a child in the tree descends from its parent, every commit but the
root is the tip of a branch, and what is checked out descends from the selected commit, on a branch
of the policy. -/
theorem search_mirrors_history {git : γ} {history : List (PolicyTransition ρ γ)}
    {s : PolicySession ρ γ} (hgit : GitOk runProcess gitRepo.repoDir view parent)
    (hknown : (view git).head ∈ (view git).commits)
    (hbranch : ∃ name, (view git).branch = some name ∧
      ∀ sessionId count, name ≠ branchName sessionId count)
    (run : PolicyRun runProcess git history s) (hfew : history.length < 2 ^ 64)
    (hworks : ∀ t ∈ history, ∀ git', t.label = .work git' →
      Works parent (view t.source.workplace.git) (view git'))
    {search : SearchState ρ} (hsearch : s.workplace.policy.state.search = some search) :
    let repository := view s.workplace.git
    let tree := search.navigator.tree
    (∀ key, tree.HasKey key → key ∈ repository.commits) ∧
    (∀ parentKey childKey, tree.Edge parentKey childKey →
      StrictlyDescends parent parentKey childKey) ∧
    (∀ key, tree.HasKey key →
      tree.keyOf tree.root = some key ∨ ∃ name, repository.branches name = some key) ∧
    (s.failed = none → ∃ path key sessionId,
      search.navigator.pendingSelectionPath = some path ∧ path.getLast? = some key ∧
      Descends parent key repository.head ∧ repository.branch =
        some (branchName sessionId s.workplace.policy.state.createdBranchCount)) := by
  have hconsistent : history.length < 2 ^ 64 → Consistent view parent history.length s := by
    apply run.historyInvariant_of_forall
      (fun t => ∀ git', t.label = .work git' →
        Works parent (view t.source.workplace.git) (view git'))
      (fun history s => history.length < 2 ^ 64 → Consistent view parent history.length s)
    · intro _
      obtain ⟨name, hname, hother⟩ := hbranch
      have hidle : Idle parent 0 (Maintainability.default : Maintainability ρ).state (view git) :=
        ⟨le_rfl, hknown, ⟨name, hname, fun sessionId _ count _ => hother sessionId count⟩,
          fun search hsearch => by cases hsearch⟩
      exact ⟨fun _ => hidle, fun _ search hsearch => (by cases hsearch), hidle.sound⟩
    · intro history s label s' output _ ih taken hworks hfew
      rw [List.length_append, List.length_singleton] at hfew ⊢
      exact (ih (by omega)).step hgit (by omega) taken hworks
    · exact hworks
  have h := hconsistent hfew
  obtain ⟨hmirrors, hkept⟩ := h.sound search hsearch
  refine ⟨hmirrors.keys, hmirrors.edges, fun key hkey => ?_, fun hfailed => ?_⟩
  · exact (hkept key hkey).imp_right fun ⟨name, htip, _⟩ => ⟨name, htip⟩
  · have hready := (h.idle hfailed).ready search hsearch
    have hpending := h.pending hfailed search hsearch
    obtain ⟨sessionId, -, hnamed⟩ := hready.named hpending
    obtain ⟨path, hpath⟩ := Option.ne_none_iff_exists'.mp hpending
    obtain ⟨completions, hconserved⟩ := hready.conserved
    have hne := (hconserved.pending path hpath).ne_nil
    have hlast := List.getLast?_eq_getLast_of_ne_nil hne
    refine ⟨path, _, sessionId, hpath, hlast, hready.base _ ?_, hnamed⟩
    rw [PendingTreeSearch.basePath, hpath]
    exact hlast

end Actions

/-- A small git: the id of a commit extends that of its parent by one digit. -/
structure SmallGit where
  commits : List String
  head : String
  branch : String
  branches : List (String × String)

namespace SmallGit

def view (this : SmallGit) : Repository where
  commits := { sha | sha ∈ this.commits }
  head := this.head
  branch := some this.branch
  branches name := this.branches.lookup name

def parentOf (sha : String) : Option String :=
  some (String.ofList sha.toList.dropLast)

def newCommit (this : SmallGit) : SmallGit :=
  let sha := this.head ++ String.singleton (hexDigits.getD (this.commits.length % 16) '0')
  { this with
    commits := sha :: this.commits
    head := sha
    branches := (this.branch, sha) :: this.branches }

def newBranch (this : SmallGit) (branch startPoint : String) : SmallGit :=
  { this with head := startPoint, branch, branches := (branch, startPoint) :: this.branches }

def runProcess : RunProcess SmallGit := fun _ args => do
  let this ← get
  match args with
  | [_, _, "rev-parse", "HEAD"] =>
    if !this.head.toList.isEmpty && this.head.toList.all (hexDigits.contains ·) then
      return encodeUtf8 (this.head ++ "\n").toList
    else throw "fatal: ambiguous argument 'HEAD'"
  | [_, _, "branch", "--show-current"] => return encodeUtf8 (this.branch ++ "\n").toList
  | [_, _, "add", "-A"] => return []
  | [_, _, "-c", "commit.gpgsign=false", "commit", "--allow-empty", "-m", _] => do
    set this.newCommit
    return []
  | [_, _, "checkout", "--force", "-B", branch, startPoint] => do
    set (this.newBranch branch startPoint)
    return []
  | _ => throw "unknown command"

theorem view_newCommit (this : SmallGit) :
    this.newCommit.view = this.view.commit this.newCommit.head := by
  have hcommits : { sha | sha ∈ this.newCommit.commits } =
      insert this.newCommit.head { sha | sha ∈ this.commits } := by
    ext sha
    simp [newCommit]
  have hbranches (name : String) : this.newCommit.branches.lookup name =
      if some this.branch = some name then some this.newCommit.head
      else this.branches.lookup name := by
    by_cases hname : name = this.branch
    · simp [newCommit, hname]
    · have hne : (name == this.branch) = false := by simp [hname]
      simp [newCommit, List.lookup_cons, hne, Ne.symm hname]
  simp only [view, Repository.commit, hcommits, hbranches]
  rfl

theorem view_newBranch (this : SmallGit) (branch startPoint : String) :
    (this.newBranch branch startPoint).view = this.view.checkout branch startPoint := by
  have hbranches (name : String) : (this.newBranch branch startPoint).branches.lookup name =
      if name = branch then some startPoint else this.branches.lookup name := by
    by_cases hname : name = branch
    · simp [newBranch, hname]
    · have hne : (name == branch) = false := by simp [hname]
      simp [newBranch, List.lookup_cons, hne, hname]
  simp only [view, Repository.checkout, hbranches]
  rfl

theorem gitOk : GitOk runProcess gitRepo.repoDir view parentOf where
  revParse g := by
    simp only [runProcess, after_bind, after_get]
    split_ifs with h
    · refine ⟨rfl, ?_, rfl⟩
      simpa [ObjectName, view] using h
    · rfl
  showCurrent g := rfl
  add g := rfl
  commit message g := by
    refine ⟨g.newCommit.head, ?_, view_newCommit g⟩
    simp [parentOf, newCommit, view]
  checkout branch startPoint g hknown := view_newBranch g branch startPoint

def start : SmallGit := ⟨["0"], "0", "main", [("main", "0")]⟩

end SmallGit

instance : FloatMeasure ExactF64 where
  sub a _ := a
  max := max
  clamp a low high := max low (min a high)
  log2 _ := 0
  sqrt2 := 1
  decimal n d := (((n / d : ℚ) : WithTop ℚ) : ExactF64)
  fixed2 _ := "100.00"

/-- A session in a directory without files to measure. -/
def noFiles : Tools ExactF64 where
  queryCompile _ _ := .ok 0
  randomBytes := [0, 1, 2, 3, 4, 5]
  find := .ok []
  countLines := .ok 0
  readText _ := .error "not found"
  parse _ _ _ := .ok 0
  queryExec _ _ _ _ := .ok []
  reportReward _ := .ok ()

theorem main_ne_branchName (sessionId : String) (count : ℕ) :
    "main" ≠ branchName sessionId count := by
  have hle : "mitb/maintainability-".length ≤ (branchName sessionId count).length := by
    unfold branchName
    generalize "mitb/maintainability-" = before
    rw [String.length_append, String.length_append, String.length_append, Nat.add_assoc,
      Nat.add_assoc]
    exact Nat.le_add_right _ _
  intro heq
  rw [← heq] at hle
  exact absurd hle (by decide +kernel)

def smallSteps : List (PolicyStep ExactF64 SmallGit) := [.act noFiles, .act noFiles]

def smallStart : PolicySession ExactF64 SmallGit := ⟨⟨Maintainability.default, SmallGit.start⟩, none⟩

def actedTwice : PolicySession ExactF64 SmallGit :=
  reached (PolicySession.step SmallGit.runProcess) smallStart smallSteps

/-- The commit of the second action is the tip of the branch of the first. -/
theorem search_mirrors_history_small :
    ∃ name, actedTwice.workplace.git.view.branches name = some "02" := by
  have run : PolicyRun SmallGit.runProcess SmallGit.start
      (trace (PolicySession.step SmallGit.runProcess) smallStart smallSteps) actedTwice :=
    Run.of_labels (by decide +kernel)
  have hlength :
      (trace (PolicySession.step SmallGit.runProcess) smallStart smallSteps).length = 2 := by
    decide +kernel
  have hacts : ∀ t ∈ trace (PolicySession.step SmallGit.runProcess) smallStart smallSteps,
      ∀ git', t.label ≠ .work git' := by
    have hall : (trace (PolicySession.step SmallGit.runProcess) smallStart smallSteps).all
        (fun t => match t.label with | .act _ => true | .work _ => false) = true := by
      decide +kernel
    intro t ht git' hlabel
    have hact := List.all_eq_true.mp hall t ht
    simp [hlabel] at hact
  obtain ⟨search, hsearch⟩ := Option.isSome_iff_exists.mp
    (show actedTwice.workplace.policy.state.search.isSome = true by decide +kernel)
  have hkeys : actedTwice.workplace.policy.state.search.map (fun search =>
      (search.navigator.tree.keyOf 2, search.navigator.tree.keyOf search.navigator.tree.root)) =
        some (some "02", some "0") := by decide +kernel
  rw [hsearch, Option.map_some, Option.some.injEq, Prod.mk.injEq] at hkeys
  have hkept := (search_mirrors_history SmallGit.gitOk (by simp [SmallGit.view, SmallGit.start])
    ⟨"main", rfl, main_ne_branchName⟩ run (by rw [hlength]; decide)
    (fun t ht git' hlabel => absurd hlabel (hacts t ht git')) hsearch).2.2.1
  rcases hkept "02" ⟨2, hkeys.1⟩ with hroot | htip
  · rw [hkeys.2] at hroot
    exact absurd hroot (by decide)
  · exact htip

end ManInTheBox.Guest
