import Mathlib.Data.List.Infix
import Muak.Foundations.Result

/-!
# Paths and directories

Resolution of absolute paths: a path is cut at slashes into components, and these are followed from
the root, where `..` leads to the parent directory. Every component is looked up in a directory, so
all locations passed on the way have to be directories.

* `components_render`: the text of a location stands for the location.
* `Reaches path loc`: in some tree of directories the path leads to a file at `loc`.
* `Tree.reaches_of_locate`, `Reaches.exists_tree`: the two directions of this.

There are no symbolic links, and paths do not end in a slash. A missing directory and a file in
place of a directory are the same error.
-/

namespace Muak.Path

open List

/-! ## Components -/

/-- The component that `cur` makes, if any. -/
def flush (cur : List Char) : List (List Char) := if cur = [] then [] else [cur]

/-- The components of `cs`, the current one starting with `cur`. -/
def componentsAux (cur : List Char) : List Char → List (List Char)
  | [] => flush cur
  | c :: cs => if c = '/' then flush cur ++ componentsAux [] cs else componentsAux (cur ++ [c]) cs

/-- The components of a path; repeated slashes count as one. -/
def components (path : String) : List String :=
  (componentsAux [] path.toList).map String.ofList

theorem componentsAux_append_slash (cur a b : List Char) :
    componentsAux cur (a ++ '/' :: b) = componentsAux cur a ++ componentsAux [] b := by
  induction a generalizing cur with
  | nil => simp [componentsAux]
  | cons c a ih =>
    by_cases hc : c = '/'
    · simp [componentsAux, hc, ih]
    · simp [componentsAux, hc, ih]

theorem components_append_slash (a b : String) :
    components (a ++ "/" ++ b) = components a ++ components b := by
  simp [components, componentsAux_append_slash]

theorem componentsAux_of_not_mem {a : List Char} (ha : '/' ∉ a) (cur : List Char) :
    componentsAux cur a = flush (cur ++ a) := by
  induction a generalizing cur with
  | nil => simp [componentsAux]
  | cons c a ih =>
    rw [mem_cons, not_or] at ha
    rw [componentsAux, if_neg (Ne.symm ha.1), ih ha.2]
    simp

theorem components_of_not_mem {name : String} (hne : name ≠ "") (hs : '/' ∉ name.toList) :
    components name = [name] := by
  have hl : name.toList ≠ [] := by simpa using hne
  simp [components, componentsAux_of_not_mem hs, flush, hl]

theorem mem_flush {cur part : List Char} : part ∈ flush cur ↔ part = cur ∧ cur ≠ [] := by
  unfold flush
  split_ifs with h <;> simp [h]

theorem mem_componentsAux {cur cs part : List Char} (hcr : '/' ∉ cur)
    (h : part ∈ componentsAux cur cs) : part ≠ [] ∧ '/' ∉ part := by
  induction cs generalizing cur with
  | nil =>
    obtain ⟨rfl, hne⟩ := mem_flush.1 h
    exact ⟨hne, hcr⟩
  | cons c cs ih =>
    by_cases hc : c = '/'
    · rw [componentsAux, if_pos hc, mem_append] at h
      rcases h with h | h
      · obtain ⟨rfl, hne⟩ := mem_flush.1 h
        exact ⟨hne, hcr⟩
      · exact ih not_mem_nil h
    · rw [componentsAux, if_neg hc] at h
      exact ih (by simp [hcr, Ne.symm hc]) h

theorem mem_components {path part : String} (h : part ∈ components path) :
    part ≠ "" ∧ '/' ∉ part.toList := by
  obtain ⟨cs, hcs, rfl⟩ := mem_map.1 h
  obtain ⟨hne, hs⟩ := mem_componentsAux not_mem_nil hcs
  exact ⟨by simpa using hne, by simpa using hs⟩

/-! ## Joining -/

/-- `Path::join`: an absolute component replaces the path, and a slash is put between the two where
there is none. -/
def join (path component : String) : String :=
  if component.toList.head? = some '/' then component
  else if path = "" ∨ path.toList.getLast? = some '/' then path ++ component
  else path ++ "/" ++ component

theorem components_join (path : String) {component : String}
    (h : component.toList.head? ≠ some '/') :
    components (join path component) = components path ++ components component := by
  rw [join, if_neg h]
  split_ifs with hp
  · rcases hp with rfl | hl
    · simp [components, componentsAux, flush]
    · -- the slash at the end of the path is the one between the two
      obtain ⟨init, hi⟩ := getLast?_eq_some_iff.1 hl
      have hp : path = String.ofList init ++ "/" ++ "" := String.toList_inj.1 (by simpa using hi)
      rw [show path ++ component = String.ofList init ++ "/" ++ component by rw [hp]; simp,
        components_append_slash, hp, components_append_slash]
      simp [components, componentsAux, flush]
  · exact components_append_slash path component

/-! ## Locations -/

/-- The name of an entry of a directory. -/
structure IsName (name : String) : Prop where
  ne_empty : name ≠ ""
  no_slash : '/' ∉ name.toList
  ne_dot : name ≠ "."
  ne_dotdot : name ≠ ".."

/-- A place in the tree of directories: the names from the root down. -/
abbrev Location := List String

/-- The text of a location. -/
def render (loc : Location) : String := loc.foldl (fun path name => path ++ "/" ++ name) ""

variable (dir : Location)

theorem render_concat (name : String) : render (dir ++ [name]) = render dir ++ "/" ++ name := by
  simp [render]

theorem components_render {loc : Location} (h : ∀ name ∈ loc, IsName name) :
    components (render loc) = loc := by
  induction loc using reverseRecOn with
  | nil => rfl
  | append_singleton dir name ih =>
    have hnm := h name (by simp)
    rw [render_concat, components_append_slash, ih fun n hn => h n (by simp [hn]),
      components_of_not_mem hnm.ne_empty hnm.no_slash]

/-- Look up a component in a directory. -/
def enter (name : String) : Location :=
  if name = "." then dir else if name = ".." then dir.dropLast else dir ++ [name]

/-- The location that components lead to. -/
def follow (names : List String) : Location := names.foldl enter dir

/-- The locations in which a component is looked up. -/
def passed (dir : Location) : List String → List Location
  | [] => []
  | name :: names => dir :: passed (enter dir name) names

theorem passed_concat (names : List String) (name : String) :
    passed dir (names ++ [name]) = passed dir names ++ [follow dir names] := by
  induction names generalizing dir with
  | nil => rfl
  | cons n names ih => simp [passed, follow, ih]

variable {dir}

theorem isName_of_mem_enter {part : String} (hdr : ∀ name ∈ dir, IsName name)
    (hp : part ≠ "" ∧ '/' ∉ part.toList) : ∀ name ∈ enter dir part, IsName name := by
  intro name hn
  unfold enter at hn
  split_ifs at hn with hdt hd
  · exact hdr name hn
  · exact hdr name (mem_of_mem_dropLast hn)
  · rcases mem_append.1 hn with h | h
    · exact hdr name h
    · rw [mem_singleton.1 h]
      exact ⟨hp.1, hp.2, hdt, hd⟩

theorem isName_of_mem_follow {names : List String} (hd : ∀ name ∈ dir, IsName name)
    (hn : ∀ part ∈ names, part ≠ "" ∧ '/' ∉ part.toList) :
    ∀ name ∈ follow dir names, IsName name := by
  induction names generalizing dir with
  | nil => exact hd
  | cons part names ih =>
    exact ih (isName_of_mem_enter hd (hn part (by simp))) (fun p hp => hn p (mem_cons_of_mem _ hp))

/-- A path leads to a location that has a text. -/
theorem isName_of_mem_follow_components (path : String) :
    ∀ name ∈ follow [] (components path), IsName name :=
  isName_of_mem_follow (fun _ h => absurd h not_mem_nil) fun _ => mem_components

/-! ## Trees of directories -/

/-- The directories that exist. -/
structure Tree where
  isDir : Location → Bool
  root : isDir [] = true
  parent : ∀ dir name, isDir (dir ++ [name]) = true → isDir dir = true

/-- The limits of the operating system on a path. -/
def admissible (path : String) : Bool :=
  path.toList.all (· ≠ '\x00') && decide (path.utf8ByteSize < 4096) &&
    (components path).all (·.utf8ByteSize ≤ 255)

namespace Tree

variable (d : Tree)

/-- The location of a path. -/
def locate (path : String) : Except String Location :=
  if admissible path then
    if (passed [] (components path)).all d.isDir then .ok (follow [] (components path))
    else .error "No such file or directory (os error 2)"
  else .error "Invalid argument (os error 22)"

/-- The text of the location of a path. -/
def resolve (path : String) : Except String String := (d.locate path).map render

/-- The key stands for a place in a directory that is not a directory itself. -/
def Holds (key : String) : Prop :=
  ∃ dir name, key = render (dir ++ [name]) ∧ (∀ n ∈ dir ++ [name], IsName n) ∧
    d.isDir dir = true ∧ d.isDir (dir ++ [name]) = false

theorem isDir_above {loc dir : Location} (hp : loc <+: dir) (hd : d.isDir dir = true) :
    d.isDir loc = true := by
  obtain ⟨names, rfl⟩ := hp
  induction names using reverseRecOn with
  | nil => simpa using hd
  | append_singleton names name ih =>
    rw [← append_assoc] at hd
    exact ih (d.parent _ _ hd)

theorem locate_eq_ok_iff {path : String} {loc : Location} :
    d.locate path = .ok loc ↔ admissible path = true ∧
      (∀ dir ∈ passed [] (components path), d.isDir dir = true) ∧
      follow [] (components path) = loc := by
  unfold locate
  split_ifs with had ha
  · rw [all_eq_true] at ha
    exact ⟨fun h => ⟨had, ha, Except.ok.inj h⟩, fun h => congrArg Except.ok h.2.2⟩
  · rw [all_eq_true] at ha
    simp [ha]
  · simp [had]

theorem resolve_eq_ok_iff {path key : String} :
    d.resolve path = .ok key ↔ ∃ loc, d.locate path = .ok loc ∧ render loc = key := by
  unfold resolve
  cases d.locate path <;> simp [Except.map]

end Tree

/-- The path can lead to a file at the location: none of the directories passed is in its place. -/
def Reaches (path : String) (loc : Location) : Prop :=
  admissible path = true ∧ follow [] (components path) = loc ∧ loc ≠ [] ∧
    ∀ dir ∈ passed [] (components path), ¬ loc <+: dir

variable {path : String} {loc : Location}

/-- A path that a tree resolves to something other than a directory. -/
theorem Tree.reaches_of_locate {d : Tree} (hl : d.locate path = .ok loc)
    (hfl : d.isDir loc = false) : Reaches path loc := by
  obtain ⟨ha, hp, hf⟩ := d.locate_eq_ok_iff.1 hl
  refine ⟨ha, hf, ?_, fun dir hd hpr => ?_⟩
  · rintro rfl
    rw [d.root] at hfl
    exact Bool.noConfusion hfl
  · rw [d.isDir_above hpr (hp dir hd)] at hfl
    exact Bool.noConfusion hfl

/-- The root, and all locations on the way to the given ones. -/
def Tree.spanning (dirs : List Location) : Tree where
  isDir loc := loc.isEmpty || dirs.any (loc.isPrefixOf ·)
  root := rfl
  parent dir name h := by
    simp only [Bool.or_eq_true, any_eq_true, isPrefixOf_iff_prefix] at h ⊢
    rcases h with h | ⟨full, hfull, hpre⟩
    · simp at h
    · exact .inr ⟨full, hfull, (prefix_append dir [name]).trans hpre⟩

/-- The last component of a path that can lead to a file is a name, looked up in a directory that
the path passes. -/
theorem Reaches.eq_concat (h : Reaches path loc) :
    ∃ dir name, loc = dir ++ [name] ∧ dir ∈ passed [] (components path) := by
  obtain ⟨-, hf, hne, hp⟩ := h
  rcases eq_nil_or_concat (components path) with hn | ⟨init, last, hc⟩
  · rw [hn] at hf
    exact absurd hf.symm hne
  · rw [concat_eq_append] at hc
    rw [hc, passed_concat] at hp
    have hdr := hp (follow [] init) (by simp)
    rw [hc, follow, foldl_append] at hf
    change enter (follow [] init) last = loc at hf
    unfold enter at hf
    split_ifs at hf with hdt hd
    · exact absurd (hf ▸ prefix_refl _) hdr
    · exact absurd (hf ▸ dropLast_prefix _) hdr
    · exact ⟨follow [] init, last, hf.symm, by rw [hc, passed_concat]; simp⟩

/-- A tree in which the path leads to a place for a file. -/
theorem Reaches.exists_tree (h : Reaches path loc) :
    ∃ d : Tree, d.locate path = .ok loc ∧ d.isDir loc = false ∧ d.Holds (render loc) := by
  obtain ⟨dir, name, rfl, hd⟩ := h.eq_concat
  obtain ⟨ha, hf, hne, hps⟩ := h
  have hi : ∀ p ∈ passed [] (components path),
      (Tree.spanning (passed [] (components path))).isDir p = true := by
    intro p hp
    simp only [Tree.spanning, Bool.or_eq_true, any_eq_true, isPrefixOf_iff_prefix]
    exact .inr ⟨p, hp, prefix_refl p⟩
  have hfl : (Tree.spanning (passed [] (components path))).isDir (dir ++ [name]) = false := by
    simp only [Tree.spanning, Bool.or_eq_false_iff, any_eq_false, isPrefixOf_iff_prefix]
    exact ⟨by simp, hps⟩
  refine ⟨Tree.spanning (passed [] (components path)), ?_, hfl, dir, name, rfl, ?_, hi dir hd, hfl⟩
  · exact (Tree.locate_eq_ok_iff _).2 ⟨ha, hi, hf⟩
  · rw [← hf]
    exact isName_of_mem_follow_components path

end Muak.Path
