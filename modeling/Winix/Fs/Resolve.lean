/-
**Path resolution.**

`walk` follows the components of a path through the tree of directories, one lookup after the other.
`resolve` is what `eat_path` makes of it: it does not look up the last component of a path that has
none, and it does not report a component that is missing on the way.

* `eatComponents_run`: the loop of `__eath_path` ends as `resolve` says.
* **`resolution_iff`**: for which paths the two are the same.
-/

import Winix.Fs.Makefs

namespace Winix.Fs

variable {layout : Layout}

open Kernel Lib List Prog

/-! ### The walk -/

section Walk

variable (nodes : Int → Node) (array : Nat → Word)

/-- The inode number in a directory's entry with this name. -/
def findIn (dir : Int) (name : List Word) : Option Int :=
  findEntry (dirEntries array (nodes dir).zones) name

/-- Directory lookup. -/
def lookup (dir : Int) (name : List Word) : Option Int :=
  if (nodes dir).isDir then findIn nodes array dir name else none

/-- Directory lookup folded over the components. -/
def walk (start : Int) (names : List (List Word)) : Option Int :=
  names.foldlM (lookup nodes array) start

/-- How `eat_path` ends, in inode numbers. -/
structure Found where
  ret : Int
  lastDir : Option Int
  ino : Option Int
  deriving DecidableEq

/-- What `__eath_path` finds. -/
def resolve : Int → List (List Word) → Found
  | dir, [] => if (nodes dir).isDir then ⟨ok, some dir, none⟩ else ⟨enotdir, none, none⟩
  | dir, [name] =>
    if (nodes dir).isDir then ⟨ok, some dir, findIn nodes array dir name⟩ else ⟨enotdir, none, none⟩
  | dir, name :: next :: names =>
    if (nodes dir).isDir then
      match findIn nodes array dir name with
      | none => ⟨ok, none, none⟩
      | some inum => resolve inum (next :: names)
    else ⟨enotdir, none, none⟩

end Walk

theorem resolve_blocked {nodes : Int → Node} {array : Nat → Word} {dir : Int} {names : List (List Word)}
    (file : (nodes dir).isDir = false) : resolve nodes array dir names = ⟨enotdir, none, none⟩ := by
  rcases names with _ | ⟨name, _ | ⟨next, names⟩⟩ <;> rw [resolve, file] <;> rfl

/-! ### The loop -/

/-- The volume holds this tree. -/
structure Shows (v : Volume) (array : Nat → Word) (nodes : Int → Node) : Prop where
  tree : Tree v array
  node : ∀ num, 0 < num → nodeAt v array num = nodes num

/-- The pointers of the code stand for these inode numbers. -/
structure Stands (v : Volume) (eaten : Eaten) (found : Found) : Prop where
  ret : eaten.ret = found.ret
  lastDir : eaten.lastDir.map (fun i => (v.inodeTable i).iNum) = found.lastDir
  retIno : eaten.retIno.map (fun i => (v.inodeTable i).iNum) = found.ino

section Loop

variable {v v' : Volume} {array : Nat → Word} {nodes : Int → Node} {slot : InodeNr} {name : List Word}
variable {path : List Word}

section

variable (shows : Shows v array nodes)
include shows

theorem Shows.same (tree : Tree v' array) (same : SameTree array v v') : Shows v' array nodes :=
  ⟨tree, fun num positive => (same.node num positive).trans (shows.node num positive)⟩

theorem Shows.slot_node (positive : 0 < (v.inodeTable slot).iNum) :
    (v.inodeTable slot).node = nodes (v.inodeTable slot).iNum := by
  rw [← shows.node _ positive, nodeAt, theInode_slot shows.tree.unique positive]

theorem Shows.isDir (positive : 0 < (v.inodeTable slot).iNum) :
    anyBit (v.inodeTable slot).iMode sIfdir = (nodes (v.inodeTable slot).iNum).isDir :=
  congrArg Node.isDir (shows.slot_node positive)

theorem Shows.found {dir num : Int} (used : InUse array dir) (isDir : (nodes dir).isDir = true)
    (proper : ComponentName name) (found : findIn nodes array dir name = some num) :
    InUse array num := by
  obtain ⟨entry, first, rfl⟩ := Option.map_eq_some_iff.mp found
  have named : entry.name = name := by simpa using find?_some first
  have node := shows.node dir used.1
  refine shows.tree.entries dir used (node ▸ isDir) entry ?_ (named ▸ proper.nonempty)
  rw [node]
  exact mem_of_find?_eq_some first

theorem advance_run (positive : 0 < (v.inodeTable slot).iNum)
    (isDir : (nodes (v.inodeTable slot).iNum).isDir = true) (proper : ComponentName name) :
    ∃ v', advance slot name v = some ((findIn nodes array (v.inodeTable slot).iNum name).getD err, v') ∧
      Shows v' array nodes ∧ v'.inodeTable = v.inodeTable := by
  have node := shows.slot_node positive
  have here : (v.inodeTable slot).node.isDir = true := node ▸ isDir
  have device := shows.tree.device slot positive here
  have used := shows.tree.used slot positive
  have inside : ∀ zone ∈ (v.inodeTable slot).zones, zone ≠ 0#32 → Inside v.cache zone.toNat := by
    have zones := shows.tree.zones _ used
    rw [shows.node _ positive, ← node] at zones
    exact zones here
  obtain ⟨c', looked, rest, size⟩ := lookupZones_run proper shows.tree.rest inside
  have same : SameCores v { v with cache := c' } := ⟨rfl, size, fun _ => rfl⟩
  refine ⟨{ v with cache := c' }, ?_, shows.same (same.tree rest shows.tree) same.sameTree, rfl⟩
  rw [advance, if_neg proper.nonempty, bind_run readIno_run, device, looked, findIn, ← node]
  rfl

end

theorem InUse.ne_err {num : Int} (used : InUse array num) : num ≠ err := by
  rintro rfl
  exact absurd used.1 (by decide)

/-- The component that `get_name` left in `string`, if any. -/
def lastNames (string : List Word) : List (List Word) := if string = [] then [] else [string]

/-- **The last component.** -/
theorem eatLast_run (shows : Shows v array nodes) (positive : 0 < (v.inodeTable slot).iNum)
    (proper : name ≠ [] → ComponentName name) :
    ∃ eaten v', eatLast slot name v = some (eaten, v') ∧ Shows v' array nodes ∧
      Stands v' eaten (resolve nodes array (v.inodeTable slot).iNum (lastNames name)) := by
  have isDir := shows.isDir positive
  have device := fun here => shows.tree.device slot positive (shows.slot_node positive ▸ here)
  generalize number : (v.inodeTable slot).iNum = dir at *
  rw [eatLast, bind_run readIno_run, isDir]
  cases here : (nodes dir).isDir with
  | false =>
    refine ⟨_, v, rfl, shows, ?_⟩
    rw [resolve_blocked here]
    exact ⟨rfl, rfl, rfl⟩
  | true =>
    rw [if_pos rfl]
    by_cases empty : name = []
    · refine ⟨⟨ok, some slot, none, name⟩, v, ?_, shows, ?_⟩
      · rw [advance, if_pos empty]
        rfl
      · simp only [lastNames, empty, if_true, resolve, here]
        exact ⟨rfl, congrArg some number, rfl⟩
    · obtain ⟨v₁, looked, shows₁, table⟩ := advance_run shows (number ▸ positive) (number ▸ here)
        (proper empty)
      rw [number] at looked
      rw [bind_run looked]
      simp only [lastNames, empty, if_false, resolve, here, if_true]
      have number₁ : (v₁.inodeTable slot).iNum = dir := by rw [table, number]
      cases found : findIn nodes array dir name with
      | none =>
        refine ⟨⟨ok, some slot, none, name⟩, v₁, rfl, shows₁, rfl, ?_, rfl⟩
        exact congrArg some number₁
      | some inum =>
        have used := shows₁.found (number ▸ shows.tree.used slot (number ▸ positive)) here
          (proper empty) found
        obtain ⟨newRip, v₂, got, tree₂, same₂, number₂⟩ := getInode_run shows₁.tree used
        refine ⟨⟨ok, some slot, some newRip, name⟩, v₂, ?_, shows₁.same tree₂ same₂, rfl, ?_, ?_⟩
        · rw [Option.getD_some, if_neg used.ne_err, device here, bind_run got]
          rfl
        · exact congrArg some ((same₂.kept slot (number₁.symm ▸ positive)).trans number₁)
        · exact congrArg some number₂

/-- A path that the loop can take. -/
structure Edible (path : List Word) : Prop where
  short : path.length < pathMax
  names : ∀ name ∈ components path, ComponentName name

theorem Edible.getName (edible : Edible path) :
    getName path = (some (splitFirst path).2, (splitFirst path).1) :=
  getName_short edible.short fun name member => (edible.names name member).short

theorem Edible.rest (edible : Edible path) (left : (splitFirst path).2 ≠ []) :
    (splitFirst path).1 ≠ [] ∧ Edible (splitFirst path).2 := by
  obtain ⟨nonempty, shorter⟩ := splitFirst_progress left
  refine ⟨nonempty, shorter.trans edible.short, fun name member => ?_⟩
  refine edible.names name ?_
  rw [components_eq, if_neg nonempty]
  exact mem_cons_of_mem _ member

/-- **The loop of `__eath_path`.** -/
theorem eatComponents_run {fuel : Nat} (shows : Shows v array nodes)
    (positive : 0 < (v.inodeTable slot).iNum) (edible : Edible path) (enough : path.length < fuel) :
    ∃ eaten v', eatComponents (some .rootfs) fuel slot path v = some (eaten, v') ∧
      Shows v' array nodes ∧
      Stands v' eaten (resolve nodes array (v.inodeTable slot).iNum (components path)) := by
  induction fuel generalizing v slot path with
  | zero => exact absurd enough (Nat.not_lt_zero _)
  | succ fuel ih =>
    rw [eatComponents, edible.getName]
    by_cases left : (splitFirst path).2 = []
    · have names : components path = lastNames (splitFirst path).1 := by
        rw [components_eq, components_rest.mpr left]
        rfl
      rw [left, names]
      refine eatLast_run shows positive fun nonempty => edible.names _ ?_
      rw [names, lastNames, if_neg nonempty]
      exact mem_cons_self
    · obtain ⟨nonempty, edible'⟩ := edible.rest left
      have more : components (splitFirst path).2 ≠ [] := fun none => left (components_rest.mp none)
      obtain ⟨next, names, split⟩ := exists_cons_of_ne_nil more
      have all : components path = (splitFirst path).1 :: next :: names := by
        rw [components_eq, if_neg nonempty, split]
      have proper : ComponentName (splitFirst path).1 :=
        edible.names _ (by rw [all]; exact mem_cons_self)
      have shorter : (splitFirst path).2.length < fuel :=
        lt_of_lt_of_le (splitFirst_progress left).2 (Nat.le_of_lt_succ enough)
      have isDir := shows.isDir positive
      have used := shows.tree.used slot positive
      obtain ⟨c, after, rest⟩ := exists_cons_of_ne_nil left
      rw [rest] at split edible' shorter ⊢
      rw [all, resolve]
      dsimp only
      rw [bind_run readIno_run, isDir]
      cases here : (nodes (v.inodeTable slot).iNum).isDir with
      | false => exact ⟨_, v, rfl, shows, rfl, rfl, rfl⟩
      | true =>
        obtain ⟨v₁, looked, shows₁, table⟩ := advance_run shows positive here proper
        rw [Bool.not_true, if_neg Bool.false_ne_true, bind_run looked, if_pos rfl]
        cases found : findIn nodes array (v.inodeTable slot).iNum (splitFirst path).1 with
        | none => exact ⟨_, v₁, rfl, shows₁, rfl, rfl, rfl⟩
        | some inum =>
          have used' := shows₁.found used here proper found
          have same₂ := SameCores.updateInode v₁ slot (fun i => { i with iCount := i.iCount - 1 }) rfl
          have tree₂ := same₂.tree shows₁.tree.rest shows₁.tree
          obtain ⟨newRip, v₃, got, tree₃, same₃, number₃⟩ := getInode_run tree₂ used'
          have shows₃ := shows₁.same tree₃ (same₂.sameTree.trans same₃)
          have result := ih shows₃ (number₃.symm ▸ used'.1) edible' shorter
          rw [number₃, split] at result
          obtain ⟨eaten, v₄, ate, shows₄, stands⟩ := result
          refine ⟨eaten, v₄, ?_, shows₄, stands⟩
          rw [Option.getD_some, if_neg used'.ne_err]
          have put : putInode (some slot) false v₁ = some (ok, v₁.updateInode slot fun i =>
            { i with iCount := i.iCount - 1 }) := rfl
          rw [bind_run put, bind_run got, ate]

end Loop

/-! ### The walk and what `eat_path` makes of it -/

section Missing

variable {nodes : Int → Node} {array : Nat → Word} {dir : Int} {name next : List Word}
  {names : List (List Word)}

/-- A component other than the last is not in the directory that the components before it lead to. -/
def Missing (nodes : Int → Node) (array : Nat → Word) (start : Int) (names : List (List Word)) : Prop :=
  ∃ before name next after dir, names = before ++ name :: next :: after ∧
    walk nodes array start before = some dir ∧ (nodes dir).isDir = true ∧
    findIn nodes array dir name = none

theorem walk_cons : walk nodes array dir (name :: names) =
    (lookup nodes array dir name).bind fun inum => walk nodes array inum names := rfl

theorem not_missing_single : ¬ Missing nodes array dir [name] := by
  rintro ⟨before, first, next, after, last, split, -⟩
  have length := congrArg List.length split
  simp only [length_nil, length_append, length_cons] at length
  omega

theorem missing_cons : Missing nodes array dir (name :: next :: names) ↔
    (nodes dir).isDir = true ∧ ∀ inum, findIn nodes array dir name = some inum →
      Missing nodes array inum (next :: names) := by
  constructor
  · rintro ⟨before, first, second, after, last, split, led, isDir, absent⟩
    cases before with
    | nil =>
      obtain ⟨rfl, -⟩ := List.cons.inj split
      cases led
      exact ⟨isDir, fun inum found => by rw [absent] at found; cases found⟩
    | cons front before =>
      obtain ⟨rfl, rest⟩ := List.cons.inj split
      obtain ⟨inum, found, led⟩ := Option.bind_eq_some_iff.mp (walk_cons ▸ led)
      unfold lookup at found
      split_ifs at found with here
      refine ⟨here, fun other found' => ?_⟩
      obtain rfl := Option.some.inj (found.symm.trans found')
      exact ⟨before, first, second, after, last, rest, led, isDir, absent⟩
  · rintro ⟨isDir, later⟩
    cases found : findIn nodes array dir name with
    | none => exact ⟨[], name, next, names, dir, rfl, rfl, isDir, found⟩
    | some inum =>
      obtain ⟨before, first, second, after, last, split, led, isDir', absent⟩ := later inum found
      refine ⟨name :: before, first, second, after, last, by rw [split]; rfl, ?_, isDir', absent⟩
      rw [walk_cons, lookup, if_pos isDir, found]
      exact led

/-- How a path with components ends. -/
inductive Ends (nodes : Int → Node) (array : Nat → Word) (start : Int) (names : List (List Word)) : Prop
  | reached (last : Int) (led : walk nodes array start names.dropLast = some last)
      (isDir : (nodes last).isDir = true) (present : ¬ Missing nodes array start names)
      (found : resolve nodes array start names = ⟨ok, some last, walk nodes array start names⟩)
  | missing (absent : Missing nodes array start names)
      (lost : walk nodes array start names.dropLast = none) (none : walk nodes array start names = none)
      (found : resolve nodes array start names = ⟨ok, Option.none, Option.none⟩)
  | blocked (present : ¬ Missing nodes array start names) (none : walk nodes array start names = none)
      (found : resolve nodes array start names = ⟨enotdir, Option.none, Option.none⟩)

/-- **How `__eath_path` ends**, by induction on the components. -/
theorem resolve_ends : ∀ {names : List (List Word)} {dir : Int}, names ≠ [] → Ends nodes array dir names
  | [], _, nonempty => absurd rfl nonempty
  | [name], dir, _ => by
      cases isDir : (nodes dir).isDir with
      | true =>
        refine .reached dir rfl isDir not_missing_single ?_
        rw [resolve, if_pos isDir, walk_cons, lookup, if_pos isDir]
        cases findIn nodes array dir name <;> rfl
      | false =>
        refine .blocked not_missing_single ?_ (resolve_blocked isDir)
        rw [walk_cons, lookup, isDir]
        rfl
  | name :: next :: names, dir, _ => by
      have rest : (name :: next :: names).dropLast = name :: (next :: names).dropLast := rfl
      cases isDir : (nodes dir).isDir with
      | false =>
        refine .blocked (fun missing => ?_) ?_ (resolve_blocked isDir)
        · have here := (missing_cons.mp missing).1
          rw [isDir] at here
          cases here
        · rw [walk_cons, lookup, isDir]
          rfl
      | true =>
        have step : ∀ names, walk nodes array dir (name :: names) =
            (findIn nodes array dir name).bind fun inum => walk nodes array inum names :=
              fun names => by
          rw [walk_cons, lookup, if_pos isDir]
        cases found : findIn nodes array dir name with
        | none =>
          refine .missing (missing_cons.mpr ⟨isDir, fun inum found' => ?_⟩) ?_ ?_ ?_
          · rw [found] at found'
            cases found'
          · rw [rest, step, found]
            rfl
          · rw [step, found]
            rfl
          · rw [resolve, if_pos isDir, found]
        | some inum =>
          have same : Missing nodes array dir (name :: next :: names) ↔
              Missing nodes array inum (next :: names) := by
            rw [missing_cons, found]
            simp [isDir]
          have onward : resolve nodes array dir (name :: next :: names) =
              resolve nodes array inum (next :: names) := by
            rw [resolve, if_pos isDir, found]
          have further : ∀ names, walk nodes array dir (name :: names) = walk nodes array inum names :=
            fun names => by rw [step, found]; rfl
          have ends : Ends nodes array inum (next :: names) := resolve_ends (cons_ne_nil next names)
          cases ends with
          | reached last led isDir' present found' =>
            refine .reached last ?_ isDir' (same.not.mpr present) ?_
            · rw [rest, further, led]
            · rw [onward, further, found']
          | missing absent lost none found' =>
            refine .missing (same.mpr absent) ?_ ?_ (onward.trans found')
            · rw [rest, further, lost]
            · rw [further, none]
          | blocked present none found' =>
            refine .blocked (same.not.mpr present) ?_ (onward.trans found')
            rw [further, none]

end Missing

/-! ### `eat_path` and `get_inode_by_path` -/

/-- The inode numbers of the directories with which a process looks paths up. -/
def homes (v : Volume) : Dirs → Int × Int
  | ⟨some rootdir, some workdir⟩ => ((v.inodeTable rootdir).iNum, (v.inodeTable workdir).iNum)
  | _ => (rootInodeNum, rootInodeNum)

/-- Where a path starts. -/
def startOf (v : Volume) (dirs : Dirs) (path : List Word) : Int :=
  if path.head? = some slash then (homes v dirs).1 else (homes v dirs).2

/-- The inode is a directory that is linked from somewhere. -/
structure Directory (array : Nat → Word) (nodes : Int → Node) (num : Int) : Prop where
  used : InUse array num
  isDir : (nodes num).isDir = true
  linked : (nodes num).linked = true

/-- The process starts from directories. -/
structure AtHome (v : Volume) (array : Nat → Word) (nodes : Int → Node) (dirs : Dirs) : Prop where
  root : Directory array nodes (homes v dirs).1
  work : Directory array nodes (homes v dirs).2

/-- A string that is shorter than `PATH_MAX`, with components shorter than `NAME_MAX`. -/
structure PathString (path : List Word) : Prop where
  characters : ∀ c ∈ path, c ≠ 0#32 ∧ c.toNat < 256
  short : path.length < pathMax
  names : ∀ name ∈ components path, name.length < nameMax

/-- The inode number behind a pointer. -/
def numberOf (v : Volume) (ino : Option InodeNr) : Option Int :=
  ino.map fun i => (v.inodeTable i).iNum

/-- `get_inode_by_path` yields what the walk finds, and `eat_path` reports `ENOENT` or `ENOTDIR` if the
components before the last do not lead to a directory. -/
structure Resolves (v : Volume) (array : Nat → Word) (nodes : Int → Node) (dirs : Dirs)
    (path : List Word) : Prop where
  yields : ∃ ret ino dirs' v', getInodeByPath dirs path v = some (((ret, ino), dirs'), v') ∧
    numberOf v' ino = walk nodes array (startOf v dirs path) (components path)
  reports : ∃ eaten dirs' v', eatPath dirs path v = some ((eaten, dirs'), v') ∧
    ((∀ dir, walk nodes array (startOf v dirs path) (components path).dropLast = some dir →
      (nodes dir).isDir = false) → eaten.ret = enoent ∨ eaten.ret = enotdir)

section EatPath

variable {v : Volume} {array : Nat → Word} {nodes : Int → Node} {dirs : Dirs} {path : List Word}

theorem mem_of_mem_components {name : List Word} (member : name ∈ components path) {c : Word}
    (inName : c ∈ name) : c ∈ path := by
  have inSplit : name ∈ path.splitOn slash := (mem_filter.mp member).1
  obtain ⟨i, here⟩ := mem_iff_getElem?.mp inSplit
  rw [← @intercalate_splitOn _ path _ _ slash]
  exact mem_flatten.mpr ⟨name, mem_of_getElem? (getElem?_intersperse_two_mul.trans here), inName⟩

theorem PathString.edible (proper : PathString path) : Edible path where
  short := proper.short
  names name member :=
    ⟨by simpa using (mem_filter.mp member).2,
      fun c inName => proper.characters c (mem_of_mem_components member inName),
      proper.names name member⟩

theorem setDirs_run (shows : Shows v array nodes) (home : AtHome v array nodes dirs) :
    ∃ rootdir workdir v', setDirs dirs v = some ((rootdir, workdir), v') ∧ Shows v' array nodes ∧
      (v'.inodeTable rootdir).iNum = (homes v dirs).1 ∧
      (v'.inodeTable workdir).iNum = (homes v dirs).2 := by
  have fresh : InUse array rootInodeNum → ∃ rootdir workdir v',
      (do
        let currDir ← getInode rootInodeNum (getDev 0x101#32)
        return (currDir, currDir) : VolM (InodeNr × InodeNr)) v = some ((rootdir, workdir), v') ∧
      Shows v' array nodes ∧ (v'.inodeTable rootdir).iNum = rootInodeNum ∧
      (v'.inodeTable workdir).iNum = rootInodeNum := by
    intro used
    obtain ⟨slot, v', got, tree, same, number⟩ := getInode_run shows.tree used
    refine ⟨slot, slot, v', ?_, shows.same tree same, number, number⟩
    have device : getDev 0x101#32 = some .rootfs := by decide
    rw [device, bind_run got]
    rfl
  match dirs, home with
  | ⟨some rootdir, some workdir⟩, _ => exact ⟨rootdir, workdir, v, rfl, shows, rfl, rfl⟩
  | ⟨none, _⟩, home => exact fresh home.root.used
  | ⟨some _, none⟩, home => exact fresh home.root.used

/-- **How `eat_path` ends.** -/
theorem eatPath_run (shows : Shows v array nodes) (home : AtHome v array nodes dirs)
    (proper : PathString path) (nonempty : path ≠ []) :
    ∃ eaten dirs' v', eatPath dirs path v = some ((eaten, dirs'), v') ∧ Shows v' array nodes ∧
      Stands v' eaten (resolve nodes array (startOf v dirs path) (components path)) := by
  obtain ⟨rootdir, workdir, v₁, set, shows₁, root, work⟩ := setDirs_run shows home
  have number : (v₁.inodeTable (if path.head? = some slash then rootdir else workdir)).iNum =
      startOf v dirs path := by
    unfold startOf
    split_ifs
    · exact root
    · exact work
  have start : Directory array nodes (startOf v dirs path) := by
    unfold startOf
    split_ifs
    · exact home.root
    · exact home.work
  generalize here : (if path.head? = some slash then rootdir else workdir) = currDir at number
  have same₂ := SameCores.updateInode v₁ currDir (fun i => { i with iCount := i.iCount + 1 }) rfl
  have shows₂ := shows₁.same (same₂.tree shows₁.tree.rest shows₁.tree) same₂.sameTree
  have number₂ := (same₂.iNum currDir).trans number
  have positive : 0 < ((v₁.updateInode currDir fun i => { i with iCount := i.iCount + 1 }).inodeTable
      currDir).iNum := number₂ ▸ start.used.1
  have node := shows₂.slot_node positive
  rw [number₂] at node
  have linked : ((v₁.updateInode currDir fun i => { i with iCount := i.iCount + 1 }).inodeTable
      currDir).iNlinks ≠ 0#32 := by
    simpa [Inode.node] using (congrArg Node.linked node).trans start.linked
  have device := shows₂.tree.device currDir positive ((congrArg Node.isDir node).trans start.isDir)
  obtain ⟨eaten, v₃, ate, shows₃, stands⟩ := eatComponents_run shows₂ positive proper.edible
    (Nat.lt_succ_self _)
  rw [number₂] at stands
  refine ⟨eaten, ⟨some rootdir, some workdir⟩, v₃, ?_, shows₃, stands⟩
  rw [eatPath, bind_run set]
  dsimp only
  rw [here, bind_run updateInode_run]
  have eats :
      eathPath currDir path (v₁.updateInode currDir fun i => { i with iCount := i.iCount + 1 }) =
      some (eaten, v₃) := by
    rw [eathPath, bind_run readIno_run, if_neg (not_or.mpr ⟨linked, nonempty⟩), device]
    exact ate
  rw [bind_run eats]
  rfl

theorem eatPath_nil (shows : Shows v array nodes) (home : AtHome v array nodes dirs) :
    ∃ dirs' v', eatPath dirs [] v = some ((⟨enoent, none, none, []⟩, dirs'), v') := by
  obtain ⟨rootdir, workdir, v₁, set, -⟩ := setDirs_run shows home
  refine ⟨⟨some rootdir, some workdir⟩, v₁.updateInode workdir fun i =>
    { i with iCount := i.iCount + 1 }, ?_⟩
  rw [eatPath, bind_run set]
  dsimp only
  rw [if_neg (by simp), bind_run updateInode_run]
  have eats : eathPath workdir [] (v₁.updateInode workdir fun i => { i with iCount := i.iCount + 1 }) =
      some (⟨enoent, none, none, []⟩, v₁.updateInode workdir fun i =>
        { i with iCount := i.iCount + 1 }) := by
    rw [eathPath, bind_run readIno_run, if_pos (.inr rfl)]
    rfl
  rw [bind_run eats]
  rfl

/-- `get_inode_by_path` is `eat_path` with the last directory given back. -/
theorem getInodeByPath_run {eaten : Eaten} {dirs' : Dirs} {v' : Volume}
    (ate : eatPath dirs path v = some ((eaten, dirs'), v')) :
    ∃ v'', getInodeByPath dirs path v = some (((eaten.ret, eaten.retIno), dirs'), v'') ∧
      ∀ ino, numberOf v'' ino = numberOf v' ino := by
  rw [getInodeByPath, bind_run ate]
  dsimp only
  cases eaten.lastDir with
  | none => exact ⟨v', rfl, fun _ => rfl⟩
  | some lastDir =>
    have same := SameCores.updateInode v' lastDir (fun i => { i with iCount := i.iCount - 1 }) rfl
    refine ⟨_, rfl, fun ino => ?_⟩
    unfold numberOf
    exact congrArg (fun f => Option.map f ino) (funext same.iNum)

/-- What `eat_path` and `get_inode_by_path` return. -/
theorem resolves_iff_of_ate {eaten : Eaten} {dirs' : Dirs} {v' : Volume}
    (ate : eatPath dirs path v = some ((eaten, dirs'), v')) :
    Resolves v array nodes dirs path ↔
      numberOf v' eaten.retIno = walk nodes array (startOf v dirs path) (components path) ∧
      ((∀ dir, walk nodes array (startOf v dirs path) (components path).dropLast = some dir →
        (nodes dir).isDir = false) → eaten.ret = enoent ∨ eaten.ret = enotdir) := by
  obtain ⟨v'', got, numbers⟩ := getInodeByPath_run ate
  constructor
  · rintro ⟨⟨ret, ino, dirs₁, v₁, got', yields⟩, eaten', dirs₂, v₂, ate', reports⟩
    rw [got] at got'
    rw [ate] at ate'
    cases got'
    cases ate'
    exact ⟨(numbers _).symm.trans yields, reports⟩
  · rintro ⟨yields, reports⟩
    exact ⟨⟨_, _, _, _, got, (numbers _).trans yields⟩, _, _, _, ate, reports⟩

theorem components_nil : components [] = [] := rfl

/-- The property fails if there is no component or one is missing on the way. -/
theorem Resolves.unmissed (shows : Shows v array nodes) (home : AtHome v array nodes dirs)
    (proper : PathString path) (resolves : Resolves v array nodes dirs path) :
    components path ≠ [] ∧ ¬ Missing nodes array (startOf v dirs path) (components path) := by
  by_cases empty : path = []
  · subst empty
    obtain ⟨dirs', v', ate⟩ := eatPath_nil shows home
    have yields := ((resolves_iff_of_ate ate).mp resolves).1
    cases yields
  obtain ⟨eaten, dirs', v', ate, -, stands⟩ := eatPath_run shows home proper empty
  obtain ⟨yields, reports⟩ := (resolves_iff_of_ate ate).mp resolves
  have retIno : numberOf v' eaten.retIno = _ := stands.retIno
  have none : components path ≠ [] := fun none => by
    rw [retIno, none, resolve] at yields
    split_ifs at yields <;> cases yields
  refine ⟨none, fun missing => ?_⟩
  cases (resolve_ends none : Ends nodes array (startOf v dirs path) (components path)) with
  | reached _ _ _ present => exact present missing
  | blocked present => exact present missing
  | missing _ lost _ found =>
    have ret : eaten.ret = ok := by rw [stands.ret, found]
    rw [ret] at reports
    have reported := reports fun dir led => by
      rw [lost] at led
      cases led
    exact absurd reported (by decide)

/-- The property holds if there are components and none is missing on the way. -/
theorem resolves_of_unmissed (shows : Shows v array nodes) (home : AtHome v array nodes dirs)
    (proper : PathString path) (some' : components path ≠ [])
    (present : ¬ Missing nodes array (startOf v dirs path) (components path)) :
    Resolves v array nodes dirs path := by
  have nonempty : path ≠ [] := fun empty => some' (by rw [empty, components_nil])
  obtain ⟨eaten, dirs', v', ate, -, stands⟩ := eatPath_run shows home proper nonempty
  refine (resolves_iff_of_ate ate).mpr ⟨stands.retIno.trans ?_, fun barred => ?_⟩
  · cases (resolve_ends some' : Ends nodes array (startOf v dirs path) (components path)) with
    | reached _ _ _ _ found => rw [found]
    | missing absent => exact absurd absent present
    | blocked _ none found => rw [found, none]
  · rw [stands.ret]
    cases (resolve_ends some' : Ends nodes array (startOf v dirs path) (components path)) with
    | reached last led isDir =>
      rw [barred last led] at isDir
      cases isDir
    | missing absent => exact absurd absent present
    | blocked _ _ found =>
      rw [found]
      exact .inr rfl

/-- **Path resolution is the walk through the tree** exactly for the paths that have a component and of
which no component but the last is missing. -/
theorem resolution_iff (shows : Shows v array nodes) (home : AtHome v array nodes dirs)
    (proper : PathString path) :
    Resolves v array nodes dirs path ↔
      components path ≠ [] ∧ ¬ Missing nodes array (startOf v dirs path) (components path) :=
  ⟨Resolves.unmissed shows home proper, fun ⟨some', present⟩ =>
    resolves_of_unmissed shows home proper some' present⟩

end EatPath

theorem image_shows : Shows (imageVolume layout) image imageNodes :=
  ⟨image_tree, image_nodeAt⟩

theorem image_home : AtHome (imageVolume layout) image imageNodes ⟨none, none⟩ :=
  have root : Directory image imageNodes 1 := ⟨image_inUse.mpr rfl, by rw [image_root]; rfl,
    by rw [image_root]; rfl⟩
  ⟨root, root⟩

theorem image_start (path : List Word) : startOf (imageVolume layout) ⟨none, none⟩ path = 1 := by
  unfold startOf
  split_ifs <;> rfl

/-- `"/./.."`. -/
def dotsPath : List Word := [slash, 46#32, slash, 46#32, 46#32]

theorem dotsPath_resolves :
    Resolves (imageVolume plainLayout) image imageNodes ⟨none, none⟩ dotsPath := by
  have proper : PathString dotsPath :=
    ⟨by simp [dotsPath, slash], by decide, by decide +kernel⟩
  refine (resolution_iff image_shows image_home proper).mpr ⟨by decide +kernel, ?_⟩
  have names : components dotsPath = [dot1, dot2] := by decide +kernel
  have here : findIn imageNodes image 1 dot1 = some 1 := by decide +kernel
  rw [image_start, names, missing_cons]
  exact fun missing => not_missing_single (missing.2 1 here)

/-- `"/"` yields no inode, and `"x/y"` is reported as `OK` in an empty root directory. -/
theorem slash_and_missing_not_resolved :
    ¬ Resolves (imageVolume plainLayout) image imageNodes ⟨none, none⟩ [slash] ∧
    ¬ Resolves (imageVolume plainLayout) image imageNodes ⟨none, none⟩ [120#32, slash, 121#32] := by
  constructor
  · intro resolves
    refine (resolves.unmissed image_shows image_home ?_).1 (by decide +kernel)
    exact ⟨by simp [slash], by decide, by decide +kernel⟩
  · intro resolves
    refine (resolves.unmissed image_shows image_home ?_).2 ?_
    · exact ⟨by simp [slash], by decide, by decide +kernel⟩
    have names : components [120#32, slash, 121#32] = [[120#32], [121#32]] := by decide +kernel
    have isDir : (imageNodes 1).isDir = true := by decide +kernel
    have absent : findIn imageNodes image 1 [120#32] = none := by decide +kernel
    rw [image_start, names, missing_cons]
    refine ⟨isDir, fun inum found => ?_⟩
    have none := absent.symm.trans found
    cases none

end Winix.Fs
