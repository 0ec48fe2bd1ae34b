import ManInTheBox.Search.Built
import ManInTheBox.Search.Disk

/-! # Trees that are taken up again

What a file holds is the tree that was last written to it, or a piece of one. A builder takes it
up if it is whole, and starts from a fresh tree otherwise.
-/

namespace ManInTheBox.Search

open Library

variable {ρ : Type} [F64 ρ] {json : Json ρ} {round : ρ → ρ} {history : List (SearchesTransition ρ)}
  {s s' : Searches ρ} {label : SearchesStep ρ} {output : Except Failure Unit}

/-! ## What has been written -/

/-- The tree that a step tries to write, and how that ends. -/
def attempt (s : Searches ρ) : SearchesStep ρ → Option (Mcts ρ × WriteEnd)
  | .call id call written =>
    (s.trees id).bind fun t =>
      if t.persists call then some ((t.call call).1, written) else none
  | .flush id written => (s.trees id).map fun t => (t, written)
  | _ => none

/-- What the write of a tree leaves in its file: the tree, or a piece of it. -/
def WriteEnd.leaves (t : Mcts ρ) : WriteEnd → Option (Option (Mcts ρ))
  | .complete => some (some t)
  | .broken .. => some none
  | _ => none

/-- What a step leaves in the file at a path. -/
def leaves (path : String) (taken : SearchesTransition ρ) : Option (Option (Mcts ρ)) :=
  (attempt taken.source taken.label).bind fun (t, written) =>
    if t.persistencePath = some path then written.leaves t else none

/-- What the last write to a path has left there. -/
def leftAt (path : String) (history : List (SearchesTransition ρ)) : Option (Option (Mcts ρ)) :=
  (history.filterMap (leaves path)).getLast?

/-- The tree in the file at a path. -/
def saved (path : String) (history : List (SearchesTransition ρ)) : Option (Mcts ρ) :=
  (leftAt path history).join

theorem leftAt_concat (path : String) (taken : SearchesTransition ρ) :
    leftAt path (history ++ [taken]) = (leaves path taken).or (leftAt path history) := by
  rw [leftAt, List.filterMap_append]
  cases h : leaves path taken with
  | none => simp [leftAt, h]
  | some t => simp [h]

/-- A tree whose best rewards are known or absent. -/
structure Mcts.Sound (t : Mcts ρ) : Prop where
  invariant : TreeInvariant t
  bestKnown : ∀ node ∈ t.nodes, node.BestKnown

/-- The file at a path, after what was left there last. -/
def Holds (json : Json ρ) (round : ρ → ρ) (file : Option (List UInt8)) :
    Option (Option (Mcts ρ)) → Prop
  | none => file = none
  | some (some t) =>
    t.Sound ∧ json.Keeps round t ∧ file = some (json.toVecPretty t.toPersisted)
  | some none => ∃ t, json.Keeps round t ∧ ∃ count < (json.toVecPretty t.toPersisted).length,
    file = some ((json.toVecPretty t.toPersisted).take count)

/-- Files and trees after a history. -/
structure Stored (json : Json ρ) (round : ρ → ρ) (history : List (SearchesTransition ρ))
    (s : Searches ρ) : Prop where
  files : ∀ path, Holds json round (s.files path) (leftAt path history)
  sound : ∀ id t, s.trees id = some t → t.Sound

theorem Stored.start : Stored json round [] Searches.start := ⟨fun _ => rfl, nofun⟩

/-! ## Building -/

/-- The tree in the file is one that the builder takes up. -/
structure MctsBuilder.Resumes (builder : MctsBuilder ρ) (readError : Option String) (t : Mcts ρ) :
    Prop where
  read : readError = none
  finite : t.Finite
  root : t.keyOf t.root = some builder.rootKey

/-- What a builder makes of the tree in the file, if there is one. -/
structure Resumed (round : ρ → ρ) (builder : MctsBuilder ρ) (readError : Option String)
    (found : Option (Mcts ρ)) (t : Mcts ρ) : Prop where
  config : t.config = builder.config
  persistencePath : t.persistencePath = builder.persistencePath
  resumed : ∀ t₀, found = some t₀ → builder.Resumes readError t₀ →
    t.root = t₀.root ∧ t.nodes = (t₀.reread round).nodes
  fresh : (∀ t₀, found = some t₀ → ¬ builder.Resumes readError t₀) →
    t = .fresh builder.rootKey builder.config builder.persistencePath

variable {builder : MctsBuilder ρ} {path : String} {readError : Option String} {t t₀ : Mcts ρ}

theorem MctsBuilder.build_of_not_loaded (hpath : builder.persistencePath = some path)
    {contents : Except String (Option (List UInt8))}
    (h : ∀ loaded, Mcts.maybeLoadFromDisk json path contents ≠ .ok (some loaded)) :
    builder.build json contents =
      .fresh builder.rootKey builder.config builder.persistencePath := by
  simp only [MctsBuilder.build, MctsBuilder.tryBuild, hpath]
  rcases hload : Mcts.maybeLoadFromDisk json path contents with error | _ | loaded
  · rfl
  · rfl
  · exact absurd hload (h loaded)

theorem MctsBuilder.build_of_loaded (hpath : builder.persistencePath = some path)
    {contents : Except String (Option (List UInt8))} {loaded : Mcts ρ}
    (h : Mcts.maybeLoadFromDisk json path contents = .ok (some loaded)) :
    builder.build json contents =
      if loaded.keyOf loaded.root = some builder.rootKey then
        { loaded with config := builder.config, persistencePath := builder.persistencePath }
      else .fresh builder.rootKey builder.config builder.persistencePath := by
  simp only [MctsBuilder.build, MctsBuilder.tryBuild, hpath, h]
  split_ifs <;> rfl

/-- A fresh tree, where there is nothing to take up. -/
theorem Resumed.of_fresh {found : Option (Mcts ρ)}
    (ht : t = .fresh builder.rootKey builder.config builder.persistencePath)
    (hnone : ∀ t₀, found = some t₀ → ¬ builder.Resumes readError t₀) :
    Resumed round builder readError found t ∧ t.Sound := by
  subst ht
  refine ⟨⟨rfl, rfl, fun t₀ hfound h => absurd h (hnone t₀ hfound), fun _ => rfl⟩,
    invariant_fresh .., ?_⟩
  intro node hmem
  rw [List.mem_singleton.mp hmem]
  exact Node.bestKnown_new builder.rootKey none

/-- What a builder makes of a document that is whole. -/
theorem MctsBuilder.build_whole [LawfulF64 ρ] (hpath : builder.persistencePath = some path)
    (hsound : t₀.Sound) (hkeeps : json.Keeps round t₀)
    (ht : t = builder.build json (.ok (some (json.toVecPretty t₀.toPersisted)))) :
    Resumed round builder none (some t₀) t ∧ t.Sound := by
  by_cases hfinite : t₀.Finite
  · obtain ⟨loaded, hload, hroot, hnodes, htree⟩ :=
      maybeLoadFromDisk_whole hsound.invariant hkeeps hfinite path
    have hkey : loaded.keyOf loaded.root = t₀.keyOf t₀.root := by
      rw [hroot, Mcts.keyOf, hnodes]
      exact (sameShape_reread round t₀).keyOf t₀.root
    rw [MctsBuilder.build_of_loaded hpath hload, hkey] at ht
    split_ifs at ht with hrootKey
    · subst ht
      refine ⟨⟨rfl, rfl, ?_, ?_⟩, ?_, ?_⟩
      · rintro t₁ ⟨⟩ _
        exact ⟨hroot, hnodes⟩
      · intro hnone
        exact absurd ⟨rfl, hfinite, hrootKey⟩ (hnone t₀ rfl)
      · exact htree.of_nodes ⟨htree.index, htree.root_lt, htree.root, htree.links⟩ rfl rfl
      · intro node hmem
        exact bestKnown_reread hkeeps node (hnodes ▸ hmem)
    · apply Resumed.of_fresh ht
      rintro t₁ ⟨⟩ h
      exact hrootKey h.root
  · obtain ⟨error, hrefused⟩ := maybeLoadFromDisk_refused (hkeeps.null hfinite) path
    have hfresh := MctsBuilder.build_of_not_loaded hpath fun loaded => by
      rw [hrefused]
      simp
    apply Resumed.of_fresh (ht.trans hfresh)
    rintro t₁ ⟨⟩ h
    exact hfinite h.finite

/-- What a builder makes of the files. -/
theorem MctsBuilder.build_resumed [LawfulF64 ρ]
    {files : Files} (hfiles : ∀ path, Holds json round (files path) (leftAt path history))
    (ht : t = builder.build json (builder.contents readError files)) :
    Resumed round builder readError
      (builder.persistencePath.bind fun path => saved path history) t ∧ t.Sound := by
  cases hpath : builder.persistencePath with
  | none =>
    apply Resumed.of_fresh
    · rw [ht]
      simp only [MctsBuilder.build, MctsBuilder.tryBuild, hpath]
    · intro t₀ hfound
      cases hfound
  | some path =>
    cases readError with
    | some error =>
      apply Resumed.of_fresh (ht.trans (MctsBuilder.build_of_not_loaded hpath nofun))
      intro t₀ _ h
      cases h.read
    | none =>
      have hfile := hfiles path
      have hcontents : builder.contents none files = .ok (files path) := by
        simp [MctsBuilder.contents, hpath]
      rw [hcontents] at ht
      rcases hleft : leftAt path history with _ | _ | t₀
      · rw [hleft] at hfile
        rw [show files path = none from hfile] at ht
        apply Resumed.of_fresh (ht.trans (MctsBuilder.build_of_not_loaded hpath nofun))
        intro t₀ hfound
        simp [saved, hleft] at hfound
      · rw [hleft] at hfile
        obtain ⟨whole, hkeeps, count, hcount, hpiece⟩ := hfile
        obtain ⟨error, hrefused⟩ := maybeLoadFromDisk_refused (hkeeps.cut count hcount) path
        rw [hpiece] at ht
        have hfresh := MctsBuilder.build_of_not_loaded hpath fun loaded => by
          rw [hrefused]
          simp
        apply Resumed.of_fresh (ht.trans hfresh)
        intro t₀ hfound
        simp [saved, hleft] at hfound
      · rw [hleft] at hfile
        obtain ⟨hsound, hkeeps, hwhole⟩ := hfile
        rw [hwhole] at ht
        have hsaved : ((some path).bind fun path => saved path history) = some t₀ := by
          simp [saved, hleft]
        rw [hsaved]
        exact MctsBuilder.build_whole hpath hsound hkeeps ht

/-! ## Runs -/

/-- A write leaves in the files what it is said to leave. -/
theorem holds_persistToDisk (hsound : t.Sound) (hkeeps : json.Keeps round t) {written : WriteEnd}
    (hpossible : written.possible json t = true) {files : Files}
    {last : String → Option (Option (Mcts ρ))}
    (hfiles : ∀ path, Holds json round (files path) (last path)) (path : String) :
    Holds json round ((t.persistToDisk json files written).1 path)
      ((if t.persistencePath = some path then written.leaves t else none).or (last path)) := by
  cases hpath : t.persistencePath with
  | none => simpa [Mcts.persistToDisk, hpath] using hfiles path
  | some own =>
    cases written with
    | noDirectory | notOpened =>
      simpa [Mcts.persistToDisk, hpath, WriteEnd.leaves] using hfiles path
    | broken count error =>
      by_cases hsame : path = own
      · subst hsame
        have hcount : count < (json.toVecPretty t.toPersisted).length := by
          simpa [WriteEnd.possible] using hpossible
        simp only [Mcts.persistToDisk, hpath, Function.update_self, if_true, WriteEnd.leaves,
          Option.some_or]
        exact ⟨t, hkeeps, count, hcount, rfl⟩
      · simpa [Mcts.persistToDisk, hpath, Function.update_of_ne hsame, Ne.symm hsame]
          using hfiles path
    | complete =>
      by_cases hsame : path = own
      · subst hsame
        simp only [Mcts.persistToDisk, hpath, Function.update_self, if_true, WriteEnd.leaves,
          Option.some_or]
        exact ⟨hsound, hkeeps, rfl⟩
      · simpa [Mcts.persistToDisk, hpath, Function.update_of_ne hsame, Ne.symm hsame]
          using hfiles path

theorem Mcts.Sound.call {call : TreeCall ρ} {result : Except Failure Unit} {t' : Mcts ρ}
    (h : t.Sound) (hcall : t.call call = (t', result)) : t'.Sound ∧ result ≠ .error .panic :=
  ⟨⟨(h.invariant.call hcall).1, bestKnown_call h.invariant h.bestKnown hcall⟩,
    (h.invariant.call hcall).2⟩

theorem sound_update (h : ∀ id t, s.trees id = some t → t.Sound) {id : ℕ} {new : Option (Mcts ρ)}
    (hnew : ∀ t, new = some t → t.Sound) (id' : ℕ) (t : Mcts ρ)
    (ht : Function.update s.trees id new id' = some t) : t.Sound := by
  by_cases hid : id' = id
  · subst hid
    rw [Function.update_self] at ht
    exact hnew t ht
  · rw [Function.update_of_ne hid] at ht
    exact h id' t ht

/-- A step that does not write leaves what the files hold as it is. -/
theorem holds_of_quiet (h : Stored json round history s) (hnone : attempt s label = none)
    (hfiles : s'.files = s.files) (path : String) :
    Holds json round (s'.files path) (leftAt path (history ++ [⟨s, label, output, s'⟩])) := by
  rw [leftAt_concat, leaves, hnone, hfiles]
  exact h.files path

/-- A step that writes leaves the tree, or a piece of it. -/
theorem holds_of_written [LawfulF64 ρ] (h : Stored json round history s) {t : Mcts ρ}
    {written : WriteEnd} (hsound : t.Sound) (hkeeps : json.Keeps round t)
    (hsome : attempt s label = some (t, written)) (hpossible : written.possible json t = true)
    (hfiles : s'.files = (t.persistToDisk json s.files written).1) (path : String) :
    Holds json round (s'.files path) (leftAt path (history ++ [⟨s, label, output, s'⟩])) := by
  rw [leftAt_concat, leaves, hsome, hfiles]
  exact holds_persistToDisk hsound hkeeps hpossible h.files path

/-- What a step keeps, and what it returns. -/
theorem Stored.step [LawfulF64 ρ] (h : Stored json round history s)
    (taken : Searches.step json s label = some (s', output))
    (hkeeps : ∀ t written, attempt s label = some (t, written) →
      json.Keeps round t) :
    Stored json round (history ++ [⟨s, label, output, s'⟩]) s' ∧ output ≠ .error .panic := by
  cases label with
  | build id builder readError =>
    cases taken
    have hsound : (builder.build json (builder.contents readError s.files)).Sound :=
      (MctsBuilder.build_resumed h.files rfl).2
    refine ⟨⟨holds_of_quiet h rfl rfl, sound_update h.sound ?_⟩, nofun⟩
    rintro t ⟨⟩
    exact hsound
  | call id call written =>
    simp only [Searches.step] at taken
    cases ht : s.trees id with
    | none => simp [ht] at taken
    | some t =>
      simp only [ht] at taken
      obtain ⟨hsound, hpanic⟩ := @Mcts.Sound.call _ _ t call _ _ (h.sound id t ht) rfl
      have hnew : ∀ t', some (t.call call).1 = some t' → t'.Sound := by
        rintro t' ⟨⟩
        exact hsound
      split_ifs at taken with hpersists hpossible
      · cases taken
        have hattempt : attempt s (.call id call written) =
            some ((t.call call).1, written) := by
          simp [attempt, ht, hpersists]
        have hkeep := hkeeps _ _ hattempt
        exact ⟨⟨holds_of_written h hsound hkeep hattempt hpossible rfl,
          sound_update h.sound hnew⟩, hpanic⟩
      · cases taken
        have hattempt : attempt s (.call id call written) = none := by
          simp [attempt, ht, hpersists]
        exact ⟨⟨holds_of_quiet h hattempt rfl, sound_update h.sound hnew⟩, hpanic⟩
  | flush id written =>
    simp only [Searches.step] at taken
    cases ht : s.trees id with
    | none => simp [ht] at taken
    | some t =>
      simp only [ht] at taken
      split_ifs at taken with hpossible
      cases taken
      have hattempt : attempt s (.flush id written) = some (t, written) := by
        simp [attempt, ht]
      have hsound := h.sound id t ht
      have hkeep := hkeeps _ _ hattempt
      refine ⟨⟨holds_of_written h hsound hkeep hattempt hpossible rfl, h.sound⟩, ?_⟩
      cases (t.persistToDisk json s.files written).2 <;> nofun
  | drop id =>
    cases taken
    exact ⟨⟨holds_of_quiet h rfl rfl, sound_update h.sound nofun⟩, nofun⟩

theorem persistencePath_backpropagateFrom (reward : ρ) (previous : Option String)
    (keys : List String) (t : Mcts ρ) :
    (Mcts.backpropagateFrom reward previous keys t).1.persistencePath = t.persistencePath := by
  induction keys generalizing previous t with
  | nil => rfl
  | cons key keys ih =>
    rw [Mcts.backpropagateFrom]
    repeat' split
    all_goals first | rfl | rw [ih]

theorem persistencePath_call (t : Mcts ρ) (call : TreeCall ρ) :
    (t.call call).1.persistencePath = t.persistencePath := by
  cases call with
  | ensureChild parentKey childKey =>
    simp only [Mcts.call, Mcts.ensureChild]
    repeat' split
    all_goals rfl
  | backpropagatePath keys reward =>
    rw [Mcts.call, Mcts.backpropagatePath]
    split_ifs
    · rfl
    · rfl
    · exact persistencePath_backpropagateFrom reward none keys t

/-- A call that is not followed by a write has changed nothing, or it has failed after it had changed
statistics. -/
theorem call_of_not_persists {call : TreeCall ρ} (h : Linked t) (hnot : t.persists call = false) :
    SameShape t (t.call call).1 ∧ ((t.call call).2 = .ok () → (t.call call).1 = t) := by
  cases call with
  | ensureChild parentKey childKey =>
    rcases hcall : t.ensureChild parentKey childKey with ⟨t', result⟩
    simp only [Mcts.call, hcall]
    rcases ensureChild_cases h hcall with ⟨rfl, -⟩ | ⟨-, parent, -, hparent, hchild, -⟩
    · exact ⟨.refl _, fun _ => rfl⟩
    · simp [Mcts.persists, hparent, hchild] at hnot
  | backpropagatePath keys reward =>
    rcases hcall : t.backpropagatePath keys reward with ⟨t', result⟩
    simp only [Mcts.call, hcall]
    refine ⟨(backpropagatePath_spec h hcall).1, ?_⟩
    rintro rfl
    simp [Mcts.persists, hcall, Except.isOk, Except.toBool] at hnot

/-- A step that keeps a tree in use, writes it whole if it writes it, and writes no other tree to its
path. -/
def Undisturbed (id : ℕ) (path : String) (taken : SearchesTransition ρ) : Prop :=
  match taken.label with
  | .build id' .. | .drop id' => id' ≠ id
  | .call id' _ written | .flush id' written =>
    if id' = id then written = .complete
    else ∀ t, taken.source.trees id' = some t → t.persistencePath ≠ some path

/-- What is in the file is the tree in use, but for what failed calls have recorded. -/
structure Mirrored (id : ℕ) (path : String) (history : List (SearchesTransition ρ))
    (s : Searches ρ) (allOk : Prop) (t₀ t : Mcts ρ) : Prop where
  saved : saved path history = some t₀
  inUse : s.trees id = some t
  persistencePath : t.persistencePath = some path
  linked : Linked t
  shape : SameShape t₀ t
  exact : allOk → t₀ = t

theorem saved_of_leaves {taken : SearchesTransition ρ} (h : leaves path taken = none) :
    saved path (history ++ [taken]) = saved path history := by
  rw [saved, leftAt_concat, h, Option.none_or, saved]

theorem saved_of_complete {taken : SearchesTransition ρ}
    (h : attempt taken.source taken.label = some (t, .complete))
    (hpath : t.persistencePath = some path) : saved path (history ++ [taken]) = some t := by
  rw [saved, leftAt_concat, leaves, h]
  simp [hpath, WriteEnd.leaves]

/-- The tree that a step is about. -/
def SearchesStep.subject : SearchesStep ρ → ℕ
  | .build id .. | .call id .. | .flush id .. | .drop id => id

variable {id : ℕ} {ok : Prop}

/-- A step leaves the other trees alone. -/
theorem trees_of_ne (taken : Searches.step json s label = some (s', output))
    (hne : id ≠ label.subject) : s'.trees id = s.trees id := by
  cases label with
  | build id' builder readError | drop id' =>
    cases taken
    exact Function.update_of_ne hne _ _
  | call id' call written =>
    simp only [Searches.step] at taken
    cases ht : s.trees id' with
    | none => simp [ht] at taken
    | some t =>
      simp only [ht] at taken
      split_ifs at taken
      all_goals
        cases taken
        exact Function.update_of_ne hne _ _
  | flush id' written =>
    simp only [Searches.step] at taken
    cases ht : s.trees id' with
    | none => simp [ht] at taken
    | some t =>
      simp only [ht] at taken
      split_ifs at taken
      cases taken
      rfl

/-- A step about another tree writes nothing to the path. -/
theorem Undisturbed.leaves_eq_none
    (h : Undisturbed id path (⟨s, label, output, s'⟩ : SearchesTransition ρ))
    (hne : id ≠ label.subject) : leaves path ⟨s, label, output, s'⟩ = none := by
  cases label with
  | build | drop => rfl
  | call id' call written =>
    have hne' : id' ≠ id := Ne.symm hne
    simp only [Undisturbed, if_neg hne'] at h
    cases ht : s.trees id' with
    | none => simp [leaves, attempt, ht]
    | some t =>
      have hpath := h t ht
      rw [← persistencePath_call t call] at hpath
      by_cases hpersists : t.persists call <;> simp [leaves, attempt, ht, hpersists, hpath]
  | flush id' written =>
    have hne' : id' ≠ id := Ne.symm hne
    simp only [Undisturbed, if_neg hne'] at h
    cases ht : s.trees id' with
    | none => simp [leaves, attempt, ht]
    | some t => simp [leaves, attempt, ht, h t ht]

theorem Mirrored.call (h : Mirrored id path history s ok t₀ t) {call : TreeCall ρ}
    (taken : Searches.step json s (.call id call .complete) = some (s', output)) :
    ∃ t₀' t', Mirrored id path (history ++ [⟨s, .call id call .complete, output, s'⟩]) s'
      (ok ∧ output = .ok ()) t₀' t' := by
  have hlinked : Linked (t.call call).1 := h.linked.call rfl
  have hpath : (t.call call).1.persistencePath = some path :=
    (persistencePath_call t call).trans h.persistencePath
  simp only [Searches.step, h.inUse] at taken
  split_ifs at taken with hpersists hpossible
  · cases taken
    have hattempt : attempt s (.call id call .complete) = some ((t.call call).1, .complete) := by
      simp [attempt, h.inUse, hpersists]
    exact ⟨_, _, saved_of_complete hattempt hpath, Function.update_self .., hpath, hlinked,
      .refl _, fun _ => rfl⟩
  · cases taken
    have hleaves : leaves path (⟨s, .call id call .complete, (t.call call).2,
        ⟨s.files, Function.update s.trees id (some (t.call call).1)⟩⟩ : SearchesTransition ρ) =
          none := by
      simp [leaves, attempt, h.inUse, hpersists]
    obtain ⟨hshape, hsame⟩ := call_of_not_persists h.linked (by simpa using hpersists)
    refine ⟨t₀, _, (saved_of_leaves hleaves).trans h.saved, Function.update_self .., hpath, hlinked,
      h.shape.trans hshape, ?_⟩
    rintro ⟨hok, hcall⟩
    rw [hsame hcall]
    exact h.exact hok

theorem Mirrored.step (h : Mirrored id path history s ok t₀ t)
    (taken : Searches.step json s label = some (s', output))
    (hundisturbed : Undisturbed id path ⟨s, label, output, s'⟩) :
    ∃ t₀' t', Mirrored id path (history ++ [⟨s, label, output, s'⟩]) s'
      (ok ∧ ∀ call written, label = .call id call written → output = .ok ()) t₀' t' := by
  by_cases hid : id = label.subject
  · cases label with
    | build | drop => exact absurd hid.symm hundisturbed
    | call id' call written =>
      obtain rfl : id = id' := hid
      simp only [Undisturbed, if_true] at hundisturbed
      subst hundisturbed
      obtain ⟨t₀', t', h'⟩ := h.call taken
      exact ⟨t₀', t', h'.saved, h'.inUse, h'.persistencePath, h'.linked, h'.shape,
        fun hok => h'.exact ⟨hok.1, hok.2 call .complete rfl⟩⟩
    | flush id' written =>
      obtain rfl : id = id' := hid
      simp only [Undisturbed, if_true] at hundisturbed
      subst hundisturbed
      have hattempt : attempt s (.flush id .complete) = some (t, .complete) := by
        simp [attempt, h.inUse]
      simp only [Searches.step, h.inUse] at taken
      split_ifs at taken
      cases taken
      exact ⟨t, t, saved_of_complete hattempt h.persistencePath, h.inUse, h.persistencePath,
        h.linked, .refl t, fun _ => rfl⟩
  · have hleaves := hundisturbed.leaves_eq_none hid
    exact ⟨t₀, t, (saved_of_leaves hleaves).trans h.saved, (trees_of_ne taken hid).trans h.inUse,
      h.persistencePath, h.linked, h.shape, fun hok => h.exact hok.1⟩

end ManInTheBox.Search
