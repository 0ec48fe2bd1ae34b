import ManInTheBox.Guest.Paths

/-! # Directory trees

What the guest sees below a preopened directory: directories list entries under names
that differ, down to regular files with their contents.
-/

namespace ManInTheBox.Guest

inductive Node
  | regularFile (contents : List UInt8)
  | directory (names : List Name) (distinct : names.Nodup) (child : Fin names.length → Node)
  | symbolicLink
  | other

/-- `DescriptorType`, with devices, pipes and sockets in one. -/
inductive DescriptorType
  | regularFile
  | directory
  | symbolicLink
  | other
  deriving DecidableEq

/-- An open directory. -/
structure Directory where
  names : List Name
  distinct : names.Nodup
  child : Fin names.length → Node

def Directory.node (d : Directory) : Node := .directory d.names d.distinct d.child

namespace Node

def descriptorType : Node → DescriptorType
  | .regularFile _ => .regularFile
  | .directory .. => .directory
  | .symbolicLink => .symbolicLink
  | .other => .other

def isDirectory (node : Node) : Bool := node.descriptorType = .directory

/-- `open_at` with `OpenFlags::DIRECTORY`. -/
def openDirectory? : Node → Option Directory
  | .directory names distinct child => some ⟨names, distinct, child⟩
  | _ => none

/-- The number of directories. -/
def directories : Node → ℕ
  | .directory _ _ child => 1 + (List.ofFn fun i => (child i).directories).sum
  | _ => 0

/-- The node that a path leads to. -/
def at? : Node → List Name → Option Node
  | node, [] => some node
  | .directory names _ child, name :: path =>
    if h : name ∈ names then (child ⟨names.idxOf name, List.idxOf_lt_length_iff.mpr h⟩).at? path
    else none
  | _, _ :: _ => none

@[simp] theorem at?_nil (node : Node) : node.at? [] = some node := by
  cases node <;> rfl

theorem openDirectory?_eq_some_iff (node : Node) (d : Directory) :
    node.openDirectory? = some d ↔ node = d.node := by
  cases node with
  | directory names distinct child =>
    obtain ⟨names', distinct', child'⟩ := d
    simp [openDirectory?, Directory.node]
  | regularFile contents => simp [openDirectory?, Directory.node]
  | symbolicLink => simp [openDirectory?, Directory.node]
  | other => simp [openDirectory?, Directory.node]

theorem isDirectory_eq_true_iff (node : Node) :
    node.isDirectory = true ↔ ∃ d : Directory, node = d.node := by
  constructor
  · intro h
    cases node with
    | directory names distinct child => exact ⟨⟨names, distinct, child⟩, rfl⟩
    | regularFile contents => cases h
    | symbolicLink => cases h
    | other => cases h
  · rintro ⟨d, rfl⟩
    rfl

end Node

namespace Directory

/-- What `read_directory` lists. -/
def entries (d : Directory) : List (Name × Node) := List.ofFn fun i => (d.names.get i, d.child i)

def openAt? (d : Directory) (name : Name) : Option Node := d.node.at? [name]

def directories (d : Directory) : ℕ := d.node.directories

@[simp] theorem isDirectory_node (d : Directory) : d.node.isDirectory = true := rfl

@[simp] theorem openDirectory?_node (d : Directory) : d.node.openDirectory? = some d := rfl

theorem node_injective : Function.Injective node := by
  rintro ⟨names, distinct, child⟩ ⟨names', distinct', child'⟩ h
  simpa [node] using h

theorem map_fst_entries (d : Directory) : d.entries.map Prod.fst = d.names := by
  rw [entries, List.map_ofFn]
  exact List.ofFn_get d.names

theorem nodup_entries (d : Directory) : d.entries.Nodup := by
  apply List.Nodup.of_map Prod.fst
  rw [map_fst_entries]
  exact d.distinct

theorem eq_of_name_eq (d : Directory) {entry entry' : Name × Node} (h : entry ∈ d.entries)
    (h' : entry' ∈ d.entries) (hname : entry.1 = entry'.1) : entry = entry' := by
  apply List.inj_on_of_nodup_map _ h h' hname
  rw [map_fst_entries]
  exact d.distinct

theorem directories_eq (d : Directory) :
    d.directories = 1 + (d.entries.map fun entry => entry.2.directories).sum := by
  rw [directories, node, Node.directories, entries, List.map_ofFn]
  rfl

/-- A path leads below one of the entries. -/
theorem at?_cons_eq_some_iff (d : Directory) (name : Name) (path : List Name) (node : Node) :
    d.node.at? (name :: path) = some node ↔
      ∃ below, (name, below) ∈ d.entries ∧ below.at? path = some node := by
  obtain ⟨names, distinct, child⟩ := d
  simp only [Directory.node, Node.at?, entries, List.mem_ofFn, Prod.mk.injEq]
  by_cases h : name ∈ names
  · rw [dif_pos h]
    constructor
    · intro hnode
      exact ⟨_, ⟨_, List.idxOf_get _, rfl⟩, hnode⟩
    · rintro ⟨below, ⟨i, hi, rfl⟩, hnode⟩
      have : (⟨names.idxOf name, List.idxOf_lt_length_iff.mpr h⟩ : Fin names.length) = i := by
        apply (List.nodup_iff_injective_get.mp distinct)
        rw [hi, List.idxOf_get]
      rw [this]
      exact hnode
  · rw [dif_neg h]
    constructor
    · intro hnode
      cases hnode
    · rintro ⟨below, ⟨i, hi, -⟩, -⟩
      exact absurd (hi ▸ List.get_mem names i) h

end Directory

/-- A path can be followed in two parts. -/
theorem Node.at?_append (node : Node) (path path' : List Name) :
    node.at? (path ++ path') = (node.at? path).bind fun below => below.at? path' := by
  induction path generalizing node with
  | nil => simp
  | cons name path ih =>
    cases node with
    | directory names distinct child =>
      simp only [List.cons_append, Node.at?]
      split
      case isTrue h => exact ih _
      case isFalse h => rfl
    | regularFile contents => rfl
    | symbolicLink => rfl
    | other => rfl

theorem Directory.at?_concat_of_mem {root : Directory} {path : List Name} {directory : Directory}
    {entry : Name × Node} (hdirectory : root.node.at? path = some directory.node) (h : entry ∈ directory.entries) :
    root.node.at? (path ++ [entry.1]) = some entry.2 := by
  rw [Node.at?_append, hdirectory, Option.bind_some, Directory.at?_cons_eq_some_iff]
  exact ⟨entry.2, h, Node.at?_nil _⟩

/-- A path that leads below a directory leads through one of its entries. -/
theorem Directory.at?_append_cons_iff {root : Directory} {path : List Name} {directory : Directory}
    (hdirectory : root.node.at? path = some directory.node) (name : Name) (rest : List Name)
    (node : Node) :
    root.node.at? (path ++ name :: rest) = some node ↔
      ∃ below, (name, below) ∈ directory.entries ∧ below.at? rest = some node := by
  rw [Node.at?_append, hdirectory, Option.bind_some, Directory.at?_cons_eq_some_iff]

theorem Node.at?_of_not_directory {node : Node} (h : node.openDirectory? = none) {path : List Name}
    (hne : path ≠ []) : node.at? path = none := by
  cases path with
  | nil => exact absurd rfl hne
  | cons name path =>
    cases node with
    | directory names distinct child => cases h
    | regularFile contents => rfl
    | symbolicLink => rfl
    | other => rfl

/-- What has something below it is a directory. -/
theorem Node.exists_directory_of_at?_ne_nil {node below : Node} {path : List Name} (hne : path ≠ [])
    (h : node.at? path = some below) : ∃ directory : Directory, node = directory.node := by
  cases hopen : node.openDirectory? with
  | some directory => exact ⟨directory, (Node.openDirectory?_eq_some_iff ..).mp hopen⟩
  | none =>
    rw [Node.at?_of_not_directory hopen hne] at h
    cases h

/-- On the way to a directory there are directories only. -/
theorem Node.exists_directory_of_at? {node : Node} {path : List Name} {directory : Directory}
    (h : node.at? path = some directory.node) : ∃ above : Directory, node = above.node := by
  cases path with
  | nil => exact ⟨directory, Option.some.inj ((Node.at?_nil node).symm.trans h)⟩
  | cons name path => exact Node.exists_directory_of_at?_ne_nil (List.cons_ne_nil name path) h

/-- The empty path leads to the directory itself. -/
theorem Directory.eq_of_at?_nil {directory directory' : Directory}
    (h : directory.node.at? [] = some directory'.node) : directory' = directory := by
  rw [Node.at?_nil, Option.some.injEq] at h
  exact node_injective h.symm

/-- What passes from the directories among the entries to a directory holds of all of them. -/
theorem Directory.induction {P : Directory → Prop}
    (step : ∀ d : Directory,
      (∀ entry ∈ d.entries, ∀ d' : Directory, entry.2 = d'.node → P d') → P d)
    (d : Directory) : P d := by
  have hnode : ∀ node : Node, ∀ d : Directory, node = d.node → P d := by
    intro node
    induction node with
    | directory names distinct child ih =>
      intro d hd
      apply step
      intro entry hentry
      obtain rfl : (⟨names, distinct, child⟩ : Directory) = d := Directory.node_injective hd
      obtain ⟨i, rfl⟩ := List.mem_ofFn.mp hentry
      exact ih i
    | regularFile contents => exact fun d hd => nomatch hd
    | symbolicLink => exact fun d hd => nomatch hd
    | other => exact fun d hd => nomatch hd
  exact hnode d.node d rfl

end ManInTheBox.Guest
