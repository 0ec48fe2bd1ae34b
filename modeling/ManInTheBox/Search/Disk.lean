import ManInTheBox.Search.RoundTrip
import ManInTheBox.Library.Utf8

/-! # Search trees on disk

A tree with a persistence path writes itself there after every call that has changed it, and a
builder with the same path reads it back. A write may be refused, and it may break off; `fs::write`
has then already cut off what was in the file before.
-/

namespace ManInTheBox.Search

open Library

variable {ρ : Type}

/-- The calls into serde_json. -/
structure Json (ρ : Type) where
  toVecPretty : PersistedMcts ρ → List UInt8
  fromStr : String → Except String (PersistedMcts ρ)

/-- `fs::read_to_string` of a file that can be read. -/
def readToString (bytes : List UInt8) : Except String String :=
  let text := fromUtf8Lossy bytes
  if encodeUtf8 text = bytes then .ok (String.ofList text)
  else .error "stream did not contain valid UTF-8"

/-- The files below the persistence paths. -/
abbrev Files := String → Option (List UInt8)

/-- How a write ends: there is no directory for it, the file cannot be opened, it breaks off after
some bytes, or it is complete. -/
inductive WriteEnd
  | noDirectory (parent error : String)
  | notOpened (error : String)
  | broken (count : ℕ) (error : String)
  | complete
  deriving DecidableEq

structure MctsBuilder (ρ : Type) where
  rootKey : String
  config : MctsConfig ρ
  persistencePath : Option String

section

variable [F64 ρ]

namespace Mcts

/-- What is at a path, unless it cannot be read. -/
def maybeLoadFromDisk (json : Json ρ) (path : String)
    (contents : Except String (Option (List UInt8))) : Except String (Option (Mcts ρ)) :=
  match contents with
  | .ok none => .ok none
  | .error error =>
    .error ("failed reading MCTS persistence file `" ++ path ++ "`: " ++ error)
  | .ok (some bytes) =>
    match readToString bytes with
    | .error error =>
      .error ("failed reading MCTS persistence file `" ++ path ++ "`: " ++ error)
    | .ok text =>
      match json.fromStr text with
      | .error error =>
        .error ("failed parsing MCTS persistence file `" ++ path ++ "`: " ++ error)
      | .ok persisted => (fromPersisted persisted (some path)).map some

def persistToDisk (json : Json ρ) (files : Files) (written : WriteEnd) (t : Mcts ρ) :
    Files × Except String Unit :=
  match t.persistencePath with
  | none => (files, .ok ())
  | some path =>
    match written with
    | .noDirectory parent error =>
      (files, .error ("failed creating MCTS persistence directory `" ++ parent ++ "`: " ++ error))
    | .notOpened error =>
      (files, .error ("failed writing MCTS persistence file `" ++ path ++ "`: " ++ error))
    | .broken count error =>
      (Function.update files path (some ((json.toVecPretty t.toPersisted).take count)),
        .error ("failed writing MCTS persistence file `" ++ path ++ "`: " ++ error))
    | .complete =>
      (Function.update files path (some (json.toVecPretty t.toPersisted)), .ok ())

/-- Whether a call comes to its `persist_best_effort`. -/
def persists (t : Mcts ρ) : TreeCall ρ → Bool
  | .ensureChild parentKey childKey =>
    match t.indexByKey.lookup parentKey with
    | none => false
    | some parent =>
      match t.indexByKey.lookup childKey with
      | none => true
      | some existingChild =>
        t.parentOf existingChild = some parent && existingChild ∉ t.childrenOf parent
  | .backpropagatePath path reward => (t.backpropagatePath path reward).2.isOk

end Mcts

namespace MctsBuilder

/-- What a builder reads at its path. -/
def contents (this : MctsBuilder ρ) (readError : Option String) (files : Files) :
    Except String (Option (List UInt8)) :=
  match readError with
  | some error => .error error
  | none => .ok (this.persistencePath.bind files)

def tryBuild (json : Json ρ) (contents : Except String (Option (List UInt8)))
    (this : MctsBuilder ρ) : Except String (Mcts ρ) :=
  match this.persistencePath with
  | none => .ok (.fresh this.rootKey this.config none)
  | some path =>
    match Mcts.maybeLoadFromDisk json path contents with
    | .error error => .error error
    | .ok none => .ok (.fresh this.rootKey this.config (some path))
    | .ok (some loaded) =>
      if loaded.keyOf loaded.root = some this.rootKey then
        .ok { loaded with config := this.config, persistencePath := some path }
      else .ok (.fresh this.rootKey this.config (some path))

def build (json : Json ρ) (contents : Except String (Option (List UInt8)))
    (this : MctsBuilder ρ) : Mcts ρ :=
  match this.tryBuild json contents with
  | .ok t => t
  | .error _ => .fresh this.rootKey this.config this.persistencePath

end MctsBuilder

end

/-- The trees in use, under numbers, and the files. -/
structure Searches (ρ : Type) where
  files : Files
  trees : ℕ → Option (Mcts ρ)

/-- A tree is built, where reading may fail; it is called or flushed, and given up, as by a crash. -/
inductive SearchesStep (ρ : Type)
  | build (id : ℕ) (builder : MctsBuilder ρ) (readError : Option String)
  | call (id : ℕ) (call : TreeCall ρ) (written : WriteEnd)
  | flush (id : ℕ) (written : WriteEnd)
  | drop (id : ℕ)

/-- A write that breaks off has not come to its end. -/
def WriteEnd.possible (json : Json ρ) [F64 ρ] (t : Mcts ρ) : WriteEnd → Bool
  | .broken count _ => count < (json.toVecPretty t.toPersisted).length
  | _ => true

namespace Searches

variable [F64 ρ] (json : Json ρ)

def start : Searches ρ := ⟨fun _ => none, fun _ => none⟩

def step (this : Searches ρ) : SearchesStep ρ → Option (Searches ρ × Except Failure Unit)
  | .build id builder readError =>
    let t := builder.build json (builder.contents readError this.files)
    some (⟨this.files, Function.update this.trees id (some t)⟩, .ok ())
  | .call id call written =>
    match this.trees id with
    | none => none
    | some t =>
      let (t', result) := t.call call
      if t.persists call then
        if written.possible json t' then
          some (⟨(t'.persistToDisk json this.files written).1,
            Function.update this.trees id (some t')⟩, result)
        else none
      else some (⟨this.files, Function.update this.trees id (some t')⟩, result)
  | .flush id written =>
    match this.trees id with
    | none => none
    | some t =>
      if written.possible json t then
        let (files, result) := t.persistToDisk json this.files written
        some (⟨files, this.trees⟩, result.mapError Failure.error)
      else none
  | .drop id => some (⟨this.files, Function.update this.trees id none⟩, .ok ())

end Searches

abbrev SearchesTransition (ρ : Type) :=
  Transition (Searches ρ) (SearchesStep ρ) (Except Failure Unit)

section Reread

variable [F64 ρ] {json : Json ρ} {round : ρ → ρ} {t t' : Mcts ρ}

/-- A number may be read back as a neighbour of what was written. -/
def Node.reread (round : ρ → ρ) (node : Node ρ) : Node ρ :=
  { node with
    rewardSum := round node.rewardSum
    bestReward := if F64.isFinite node.bestReward then round node.bestReward
      else F64.negInfinity }

def Mcts.reread (round : ρ → ρ) (t : Mcts ρ) : Mcts ρ :=
  { t with nodes := t.nodes.map (Node.reread round) }

def MctsConfig.map (f : ρ → ρ) (config : MctsConfig ρ) : MctsConfig ρ :=
  ⟨f config.explorationConstant, f config.progressiveWideningK, f config.progressiveWideningAlpha⟩

def PersistedMcts.map (f : ρ → ρ) (persisted : PersistedMcts ρ) : PersistedMcts ρ where
  config := persisted.config.map f
  root := persisted.root
  nodes := persisted.nodes.map fun node =>
    { node with rewardSum := f node.rewardSum, bestReward := node.bestReward.map f }

/-- None of the numbers that have to be there is written as `null`. -/
structure Mcts.Finite (t : Mcts ρ) : Prop where
  explorationConstant : F64.isFinite t.config.explorationConstant = true
  progressiveWideningK : F64.isFinite t.config.progressiveWideningK = true
  progressiveWideningAlpha : F64.isFinite t.config.progressiveWideningAlpha = true
  rewardSum : ∀ node ∈ t.nodes, F64.isFinite node.rewardSum = true

/-- serde_json reads the document of a tree back, refuses a `null` in it, and refuses all that it
begins with; a finite number stays finite. -/
structure Json.Keeps (json : Json ρ) (round : ρ → ρ) (t : Mcts ρ) : Prop where
  whole : t.Finite → ∃ text, readToString (json.toVecPretty t.toPersisted) = .ok text ∧
    json.fromStr text = .ok (t.toPersisted.map round)
  null : ¬ t.Finite → ∀ text, readToString (json.toVecPretty t.toPersisted) = .ok text →
    ∃ error, json.fromStr text = .error error
  cut : ∀ count < (json.toVecPretty t.toPersisted).length, ∀ text,
    readToString ((json.toVecPretty t.toPersisted).take count) = .ok text →
    ∃ error, json.fromStr text = .error error
  rewardSum : ∀ node ∈ t.nodes, F64.isFinite node.rewardSum = true →
    F64.isFinite (round node.rewardSum) = true
  bestReward : ∀ node ∈ t.nodes, F64.isFinite node.bestReward = true →
    F64.isFinite (round node.bestReward) = true

theorem sameShape_reread (round : ρ → ρ) (t : Mcts ρ) : SameShape t (t.reread round) := by
  constructor
  · rfl
  · exact List.length_map ..
  · rfl
  · intro i
    simp only [Mcts.keyOf, Mcts.reread, List.getElem?_map, Option.map_map]
    rfl
  · intro i
    simp only [Mcts.parentOf, Mcts.reread, List.getElem?_map, Option.bind_map]
    rfl
  · intro p
    simp only [Mcts.childrenOf, Mcts.reread, List.getElem?_map, Option.map_map]
    rfl

theorem intoNode_map (round : ρ → ρ) (t : Mcts ρ) :
    (t.toPersisted.map round).nodes.map PersistedNode.intoNode = (t.reread round).nodes := by
  simp only [PersistedMcts.map, Mcts.toPersisted, Mcts.reread, List.map_map]
  apply List.map_congr_left
  intro node _
  simp only [Function.comp_apply, PersistedNode.fromNode, PersistedNode.intoNode, Node.reread]
  split_ifs <;> rfl

theorem bestKnown_reread (hkeeps : json.Keeps round t) :
    ∀ node ∈ (t.reread round).nodes, node.BestKnown := by
  intro node hmem
  obtain ⟨old, hold, rfl⟩ := List.mem_map.mp hmem
  by_cases hfinite : F64.isFinite old.bestReward
  · left
    simpa [Node.reread, hfinite] using hkeeps.bestReward old hold hfinite
  · right
    simp [Node.reread, hfinite]

omit [F64 ρ] in
/-- Nodes and root make a tree; the index only has to fit. -/
theorem TreeInvariant.of_nodes (h : TreeInvariant t) (hlinked : Linked t') (hroot : t'.root = t.root)
    (hnodes : t'.nodes = t.nodes) : TreeInvariant t' := by
  refine ⟨hlinked.index, hlinked.root_lt, hlinked.root, hlinked.links, fun p => ?_, fun i hi => ?_⟩
  · simpa only [Mcts.childrenOf, hnodes] using h.nodup p
  · have hchain := h.chain i (hnodes ▸ hi)
    have hparent : t'.parentOf = t.parentOf := by
      funext j
      rw [Mcts.parentOf, Mcts.parentOf, hnodes]
    rwa [hroot, hparent]

/-- A document with the nodes of a tree is accepted. -/
theorem fromPersisted_of_tree [LawfulF64 ρ] (h : TreeInvariant t) {persisted : PersistedMcts ρ}
    (hroot : persisted.root = t.root) (hnodes : persisted.nodes.map PersistedNode.intoNode = t.nodes)
    (hsum : ∀ node ∈ t.nodes, F64.isFinite node.rewardSum = true)
    (hbest : ∀ node ∈ t.nodes, node.BestKnown) (path : Option String) :
    ∃ loaded, fromPersisted persisted path = .ok loaded ∧ loaded.root = t.root ∧
      loaded.nodes = t.nodes := by
  obtain ⟨indexByKey, hindex⟩ : ∃ indexByKey, indexNodes 0 ∅ t.nodes = .ok indexByKey :=
    indexNodes_of_forall hsum hbest h.nodup_keys fun node _ => AList.notMem_empty _
  refine ⟨⟨persisted.config, t.root, t.nodes, indexByKey, path⟩, ?_, rfl, rfl⟩
  have hlt := h.root_lt
  have hparentless := h.root
  rw [Mcts.parentOf, List.getElem?_eq_getElem hlt] at hparentless
  have hparent : t.nodes[t.root].parent = none := hparentless
  simp only [fromPersisted, hnodes, hroot, List.getElem?_eq_getElem hlt, hparent, hindex,
    h.checkLinks, Option.isSome_none, Bool.false_eq_true, if_false]

theorem maybeLoadFromDisk_whole [LawfulF64 ρ] (h : TreeInvariant t) (hkeeps : json.Keeps round t)
    (hfinite : t.Finite) (path : String) :
    ∃ loaded, Mcts.maybeLoadFromDisk json path (.ok (some (json.toVecPretty t.toPersisted))) =
        .ok (some loaded) ∧
      loaded.root = t.root ∧ loaded.nodes = (t.reread round).nodes ∧ TreeInvariant loaded := by
  have hreread := h.congr (sameShape_reread round t)
  have hsum : ∀ node ∈ (t.reread round).nodes, F64.isFinite node.rewardSum = true := by
    intro node hmem
    obtain ⟨old, hold, rfl⟩ := List.mem_map.mp hmem
    exact hkeeps.rewardSum old hold (hfinite.rewardSum old hold)
  obtain ⟨loaded, haccepted, hroot, hnodes⟩ := fromPersisted_of_tree hreread
    rfl (intoNode_map round t) hsum (bestKnown_reread hkeeps) (some path)
  obtain ⟨text, hread, hparsed⟩ := hkeeps.whole hfinite
  refine ⟨loaded, ?_, hroot, hnodes, ?_⟩
  · simp only [Mcts.maybeLoadFromDisk, hread, hparsed, haccepted]
    rfl
  · exact hreread.of_nodes (linked_fromPersisted haccepted) hroot hnodes

/-- Where text is no document, nothing is loaded. -/
theorem maybeLoadFromDisk_refused {bytes : List UInt8}
    (h : ∀ text, readToString bytes = .ok text → ∃ error, json.fromStr text = .error error)
    (path : String) :
    ∃ error, Mcts.maybeLoadFromDisk json path (.ok (some bytes)) = .error error := by
  simp only [Mcts.maybeLoadFromDisk]
  cases hread : readToString bytes with
  | error error => exact ⟨_, rfl⟩
  | ok text =>
    obtain ⟨error, hparsed⟩ := h text hread
    simp only [hparsed]
    exact ⟨_, rfl⟩

end Reread

end ManInTheBox.Search
