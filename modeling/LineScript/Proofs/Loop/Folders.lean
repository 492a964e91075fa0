import LineScript.Proofs.Files.Paths
import LineScript.Proofs.Loop.Tours
import Mathlib.Algebra.BigOperators.Group.List.Basic

/-!
# Loops over folders

A loop that recurses makes a tour through the folders below the one it starts from, in the order of their names, whether or not they
match (`FolderCursor.Place.inner`). In each one it hands out the entries that are wanted, by name. So each entry that matches comes
once, under a path that leads to it (`FolderCursor.drains_tree`).
-/

namespace LineScript

open Text

/-- The order of texts is that of the library. -/
theorem Text.isLE_order {a b : String} : (order a b).isLE = true ↔ a ≤ b := by
  rw [order]
  split
  · rename_i hlt
    exact ⟨fun _ => Std.le_of_lt hlt, fun _ => rfl⟩
  · rename_i hlt
    split
    · rename_i heq
      exact ⟨fun _ => Std.le_of_eq (eq_of_beq heq), fun _ => rfl⟩
    · rename_i hne
      refine ⟨nofun, fun hle => absurd (Std.lt_of_le_of_ne hle fun heq => hne (beq_iff_eq.mpr heq)) hlt⟩

namespace FolderCursor

open Files (pathOf pathOf_concat listed TidyTree)

/-! ## Entries by name -/

theorem byName_perm (entries : List Node) : (byName entries).Perm entries :=
  List.mergeSort_perm _ _

/-- Where names are distinct, they still are in the order of the names. -/
theorem byName_distinct {entries : List Node} (h : (entries.map (·.name)).Nodup) :
    (byName entries).Pairwise fun a b => a.name ≠ b.name :=
  List.pairwise_map.mp (((byName_perm entries).map _).nodup_iff.mpr h)

/-- Where names are distinct, each is before the next one in the order of the names. -/
theorem byName_sorted {entries : List Node} (h : (entries.map (·.name)).Nodup) :
    (byName entries).Pairwise fun a b => a.name < b.name := by
  have hsorted : (byName entries).Pairwise fun a b => (order a.name b.name).isLE = true := by
    refine List.pairwise_mergeSort (fun a b c hab hbc => ?_) (fun a b => ?_) entries
    · rw [isLE_order] at hab hbc ⊢
      exact String.le_trans hab hbc
    · rw [Bool.or_eq_true, isLE_order, isLE_order]
      exact String.le_total _ _
  exact (hsorted.and (byName_distinct h)).imp fun hab => Std.lt_of_le_of_ne (isLE_order.mp hab.1) hab.2

/-! ## Places -/

/-- A folder that a loop comes to: the names that lead there from where it starts, and its entries. -/
structure Place where
  /-- The names. -/
  names : List String
  /-- The entries. -/
  entries : List Node

namespace Place

/-- The folders in a folder, by name, if the loop recurses. -/
def inner (recurse : Bool) (place : Place) : List Place :=
  if recurse then
    (byName place.entries).filterMap fun node => node.inner?.map fun entries => ⟨place.names ++ [node.name], entries⟩
  else []

/-- The entries of a folder that are wanted, by name, with the names that lead to them. -/
def wanted (matcher : String → Bool) (mode : FolderMode) (place : Place) : List (List String × Node) :=
  ((byName place.entries).filter fun node => mode.wants node.isFolder && matcher node.name).map fun node =>
    (place.names ++ [node.name], node)

/-- The size of a folder: the number of its entries, those below it included, and itself. -/
def size (place : Place) : Nat :=
  1 + Node.countAll place.entries

end Place

/-- The item of an entry that names lead to from a folder. -/
def itemAt (folder : String) (entry : List String × Node) : FileItem :=
  item (pathOf folder entry.1.dropLast) entry.2

/-! ## The loop -/

/-- The items that a cursor hands out until there are no more: nothing is ready, and no folder is left to list. -/
inductive Drains (files : Files) : FolderCursor → List FileItem → Prop
  | done {c c' : FolderCursor} (h : next files c = .ok (none, c')) (hready : c'.ready = []) (hpending : c'.pending = []) :
    Drains files c []
  | item {c c' : FolderCursor} {found : FileItem} {items : List FileItem} (h : next files c = .ok (some found, c'))
      (hrest : Drains files c' items) : Drains files c (found :: items)

section

variable (files : Files) (matcher : String → Bool) (mode : FolderMode) (recurse : Bool) (folder : String)

/-- A loop on its way: the places to list, next first, and the items found and not handed out yet. -/
def going (todo : List Place) (ready : List FileItem) : FolderCursor :=
  { matcher, mode, recurse, pending := todo.map fun place => pathOf folder place.names, ready }

/-- The items of a place. -/
def itemsOf (place : Place) : List FileItem :=
  (place.wanted matcher mode).map (itemAt folder)

/-- A place is listed under its path. -/
def Listed (place : Place) : Prop :=
  files.entriesAt (listed (pathOf folder place.names)) = .ok place.entries

end

section

variable {files : Files} {matcher : String → Bool} {mode : FolderMode} {recurse : Bool} {folder : String}

/-- The items of a place are those of its wanted entries, by name, under its path. -/
theorem itemsOf_eq (place : Place) :
    itemsOf matcher mode folder place =
      ((byName place.entries).filter fun node => mode.wants node.isFolder && matcher node.name).map
        (item (pathOf folder place.names)) := by
  rw [itemsOf, Place.wanted, List.map_map]
  refine List.map_congr_left fun node _ => ?_
  rw [Function.comp_apply, itemAt, List.dropLast_concat]

/-- The entries that have entries inside are the folders. -/
theorem filterMap_inner? {β : Type} (f : Node → β) (entries : List Node) :
    (entries.filterMap fun node => node.inner?.map fun _ => f node) = (entries.filter Node.isFolder).map f := by
  induction entries with
  | nil => rfl
  | cons node entries ih =>
    cases node with
    | file => exact ih
    | folder => exact congrArg (List.cons _) ih

/-- The places inside a place are named by its folders. -/
theorem map_inner {β : Type} (recurse : Bool) (f : List String → β) (place : Place) :
    (place.inner recurse).map (fun place => f place.names) =
      if recurse then ((byName place.entries).filter Node.isFolder).map fun node => f (place.names ++ [node.name]) else [] := by
  rw [Place.inner]
  split
  · rw [List.map_filterMap, ← filterMap_inner?]
    refine List.filterMap_congr fun node _ => ?_
    rw [Option.map_map]
    rfl
  · rfl

/-- Listing a place puts the places inside it in front of the others. -/
theorem scan_going (matcher : String → Bool) (mode : FolderMode) (recurse : Bool) {place : Place} (h : Listed files folder place)
    (rest : List Place) (ready : List FileItem) :
    scan files (going matcher mode recurse folder rest ready) (pathOf folder place.names) =
      .ok (going matcher mode recurse folder (place.inner recurse ++ rest) (ready ++ itemsOf matcher mode folder place)) := by
  have hlisted : files.entriesAt (if (pathOf folder place.names).isEmpty then "." else pathOf folder place.names) =
      .ok place.entries := h
  rw [scan, hlisted, itemsOf_eq]
  simp only [going, List.map_append, map_inner recurse (pathOf folder), pathOf_concat]
  rfl

/-- A round without ready items lists the next place. -/
theorem nextWithin_place {place : Place} (h : Listed files folder place) (fuel : Nat) (rest : List Place) :
    nextWithin files (fuel + 1) (going matcher mode recurse folder (place :: rest) []) =
      nextWithin files fuel (going matcher mode recurse folder (place.inner recurse ++ rest) (itemsOf matcher mode folder place)) := by
  have hscan := scan_going matcher mode recurse h rest []
  rw [nextWithin]
  simp only [going, List.map_cons] at hscan ⊢
  rw [hscan, List.nil_append]

variable (files matcher mode recurse folder)

/-- A loop over folders makes a tour through them. -/
def tourLoop : TourLoop Place FileItem FolderCursor (Except Problem (Option FileItem × FolderCursor)) where
  going := going matcher mode recurse folder
  nextWithin := nextWithin files
  found item c := .ok (some item, c)
  ended c := .ok (none, c)
  inner := Place.inner recurse
  own := itemsOf matcher mode folder
  Open := Listed files folder
  ready _ todo _ _ := by cases todo <;> rfl
  finish _ := rfl
  visit rounds place rest h := nextWithin_place h rounds rest

variable {files matcher mode recurse folder}

/-- The next item is looked for in as many rounds as there are entries and places to list. -/
theorem next_going (todo : List Place) (ready : List FileItem) :
    next files (going matcher mode recurse folder todo ready) =
      nextWithin files (todo.length + Node.countAll files.entries + 2) (going matcher mode recurse folder todo ready) := by
  have hlength : (going matcher mode recurse folder todo ready).pending.length = todo.length := List.length_map _
  rw [next, hlength]

/-- What the loop of a tour yields drains the cursor. -/
theorem drains_of_yields {c : FolderCursor} {items : List FileItem}
    (h : (tourLoop files matcher mode recurse folder).Yields (next files) c items) : Drains files c items := by
  induction h with
  | ended h => exact .done h rfl rfl
  | found h _ ih => exact .item h ih

/-- The items are those of the places of the tour, one after the other. Rounds for as many places as there are entries are enough. -/
theorem drains_of_tour (matcher : String → Bool) (mode : FolderMode) {todo visited : List Place}
    (htour : Tour (Place.inner recurse) todo visited) (hlisted : ∀ place ∈ visited, Listed files folder place)
    (hfew : visited.length ≤ todo.length + Node.countAll files.entries) :
    Drains files (going matcher mode recurse folder todo []) (visited.flatMap (itemsOf matcher mode folder)) := by
  have hyields : (tourLoop files matcher mode recurse folder).Yields (next files) (going matcher mode recurse folder todo [])
      (visited.flatMap (itemsOf matcher mode folder)) :=
    TourLoop.yields_of_tour next_going htour hlisted hfew
  exact drains_of_yields hyields

end

/-! ## All places of a tree -/

section

variable {recurse : Bool} {matcher : String → Bool} {mode : FolderMode} {entries : List Node} {visited : List Place}

/-- A place is inside another one if the loop recurses and the place is one of its folders. -/
theorem mem_inner {place above : Place} :
    place ∈ above.inner recurse ↔
      recurse = true ∧ ∃ node ∈ above.entries, node.inner? = some place.entries ∧ place.names = above.names ++ [node.name] := by
  rw [Place.inner]
  split
  · rename_i hrecurse
    rw [List.mem_filterMap, and_iff_right hrecurse]
    refine exists_congr fun node => and_congr (byName_perm _).mem_iff ?_
    rw [Option.map_eq_some_iff]
    constructor
    · rintro ⟨inner, hinner, rfl⟩
      exact ⟨hinner, rfl⟩
    · rintro ⟨hinner, hnames⟩
      exact ⟨place.entries, hinner, by rw [← hnames]⟩
  · rename_i hrecurse
    exact ⟨nofun, fun h => absurd h.1 hrecurse⟩

/-- An entry is wanted at a place if it is there, the mode wants it and its name matches. -/
theorem mem_wanted {place : Place} {names : List String} {node : Node} :
    (names, node) ∈ place.wanted matcher mode ↔
      node ∈ place.entries ∧ mode.wants node.isFolder = true ∧ matcher node.name = true ∧
        names = place.names ++ [node.name] := by
  rw [Place.wanted, List.mem_map]
  constructor
  · rintro ⟨node', hnode, heq⟩
    obtain ⟨rfl, rfl⟩ := Prod.mk.inj heq
    rw [List.mem_filter, (byName_perm _).mem_iff, Bool.and_eq_true] at hnode
    exact ⟨hnode.1, hnode.2.1, hnode.2.2, rfl⟩
  · rintro ⟨hmem, hwants, haccepts, rfl⟩
    refine ⟨node, ?_, rfl⟩
    rw [List.mem_filter, (byName_perm _).mem_iff, Bool.and_eq_true]
    exact ⟨hmem, hwants, haccepts⟩

/-- A tour through a tree ends. It comes to no more places than there are entries. -/
theorem exists_tour (recurse : Bool) (entries : List Node) :
    ∃ visited, Tour (Place.inner recurse) [⟨[], entries⟩] visited ∧ visited.length ≤ 1 + Node.countAll entries := by
  have hfolders (names : List String) (nodes : List Node) :
      ((nodes.filterMap fun node => node.inner?.map fun inner => (⟨names ++ [node.name], inner⟩ : Place)).map Place.size).sum ≤
        Node.countAll nodes := by
    induction nodes with
    | nil => exact Nat.le_refl 0
    | cons node nodes ih =>
      rw [Node.countAll]
      cases node with
      | file => exact Nat.le_trans ih (Nat.le_add_left _ _)
      | folder name inner => exact Nat.add_le_add (Nat.le_refl _) ih
  have hsize (place : Place) : ((place.inner recurse).map Place.size).sum < place.size := by
    have hcount := Node.countAll_perm (byName_perm place.entries)
    have hbyName := hfolders place.names (byName place.entries)
    rw [Place.size, Place.inner]
    split
    · omega
    · rw [List.map_nil, List.sum_nil]
      omega
  obtain ⟨visited, htour, hlength⟩ :=
    Tour.exists_tour (p := fun _ => True) (by simp) (fun place _ => hsize place) [⟨[], entries⟩] (by simp)
  exact ⟨visited, htour, by simpa [Place.size] using hlength⟩

/-- Entries with distinct names are reached by distinct names. -/
theorem nodup_names (h : (entries.map (·.name)).Nodup) (above : List String) (p : Node → Bool) :
    (((byName entries).filter p).map fun node => above ++ [node.name]).Nodup :=
  List.pairwise_map.mpr (((byName_distinct h).filter p).imp fun hne heq => hne (by simpa using heq))

/-- Where names are distinct, each entry is found by its name. -/
theorem find?_of_mem {node : Node} (h : (entries.map (·.name)).Nodup) (hnode : node ∈ entries) :
    Node.find? entries node.name = some node := by
  induction entries with
  | nil => cases hnode
  | cons first entries ih =>
    rw [List.map_cons, List.nodup_cons] at h
    rw [Node.find?, List.find?_cons]
    rcases List.mem_cons.mp hnode with rfl | hnode
    · rw [beq_self_eq_true]
    · have hother : first.name ≠ node.name := fun heq => h.1 (heq ▸ List.mem_map_of_mem hnode)
      rw [beq_false_of_ne hother]
      exact ih h.2 hnode

variable (htidy : TidyTree entries) (htour : Tour (Place.inner recurse) [⟨[], entries⟩] visited)

include htidy htour

/-- A tour comes to folders of the tree. -/
theorem under?_of_visited :
    ∀ place ∈ visited, Node.under? entries place.names = some place.entries ∧ (recurse = true ∨ place.names = []) := by
  refine htour.forall_visited (p := fun place => Node.under? entries place.names = some place.entries ∧ _) ?_ ?_
  · intro place hplace
    obtain rfl := List.mem_singleton.mp hplace
    exact ⟨rfl, .inr rfl⟩
  · rintro above ⟨habove, -⟩ place hplace
    obtain ⟨hrecurse, node, hnode, hinner, hnames⟩ := mem_inner.mp hplace
    refine ⟨?_, .inl hrecurse⟩
    rw [hnames, Node.under?_append, habove, Option.bind_some, Node.under?, Node.within?,
      find?_of_mem (htidy _ _ habove).1 hnode, Option.bind_some, hinner]
    rfl

omit htidy in
/-- If it recurses, it comes to all of them. -/
theorem visited_of_under? {names : List String} {inner : List Node} (h : Node.under? entries names = some inner)
    (hscope : recurse = true ∨ names = []) : ⟨names, inner⟩ ∈ visited := by
  induction names using List.reverseRecOn generalizing inner with
  | nil =>
    obtain rfl : entries = inner := Option.some.inj h
    exact htour.subset List.mem_cons_self
  | append_singleton names name ih =>
    have hrecurse : recurse = true := hscope.resolve_right (by simp)
    rw [Node.under?_append, Option.bind_eq_some_iff] at h
    obtain ⟨upper, hupper, h⟩ := h
    obtain ⟨below, hbelow, h⟩ := Option.bind_eq_some_iff.mp h
    obtain rfl : below = inner := Option.some.inj h
    obtain ⟨node, hnode, hinner⟩ := Option.bind_eq_some_iff.mp hbelow
    have hname : node.name = name := by simpa using List.find?_some hnode
    refine htour.inner_subset _ (ih hupper (.inl hrecurse)) ?_
    exact mem_inner.mpr ⟨hrecurse, node, List.mem_of_find?_eq_some hnode, hinner, by rw [hname]⟩

/-- What is wanted is found once under its names, wherever it is in the tree, if the loop recurses. -/
theorem mem_found {names : List String} {node : Node} :
    (names, node) ∈ visited.flatMap (Place.wanted matcher mode) ↔
      Node.at? entries names = some node ∧ (recurse = true ∨ names.length = 1) ∧ mode.wants node.isFolder = true ∧
        matcher node.name = true := by
  rw [List.mem_flatMap]
  constructor
  · rintro ⟨place, hplace, hwanted⟩
    obtain ⟨hnode, hwants, haccepts, rfl⟩ := mem_wanted.mp hwanted
    obtain ⟨hunder, hscope⟩ := under?_of_visited htidy htour place hplace
    refine ⟨?_, hscope.imp_right fun hnames => by rw [hnames]; rfl, hwants, haccepts⟩
    rw [Node.at?_concat, hunder]
    exact find?_of_mem (htidy _ _ hunder).1 hnode
  · rintro ⟨hnode, hscope, hwants, haccepts⟩
    rcases List.eq_nil_or_concat names with rfl | ⟨above, name, rfl⟩
    · cases hnode
    · rw [List.concat_eq_append] at hnode hscope ⊢
      rw [Node.at?_concat, Option.bind_eq_some_iff] at hnode
      obtain ⟨upper, hupper, hnode⟩ := hnode
      have hname : node.name = name := by simpa using List.find?_some hnode
      refine ⟨⟨above, upper⟩, visited_of_under? htour hupper (hscope.imp_right fun hlength => ?_), mem_wanted.mpr ?_⟩
      · simpa using hlength
      · exact ⟨List.mem_of_find?_eq_some hnode, hwants, haccepts, by rw [hname]⟩

/-- Each folder is visited once at most. -/
theorem nodup_visited : (visited.map (·.names)).Nodup := by
  refine htour.nodup (fun above _ place hplace => ?_) (fun place hplace => ?_) (List.pairwise_singleton _ _)
  · obtain ⟨-, node, -, -, hnames⟩ := mem_inner.mp hplace
    exact ⟨node.name, hnames⟩
  · obtain ⟨hunder, -⟩ := under?_of_visited htidy htour place hplace
    have hnames := map_inner recurse id place
    simp only [id] at hnames
    rw [hnames]
    split
    · exact nodup_names (htidy _ _ hunder).1 _ _
    · exact List.nodup_nil

/-- No two wanted entries are reached by the same names. -/
theorem nodup_found : ((visited.flatMap (Place.wanted matcher mode)).map (·.1)).Nodup := by
  have hnames (place : Place) : (place.wanted matcher mode).map (·.1) =
      ((byName place.entries).filter fun node => mode.wants node.isFolder && matcher node.name).map fun node =>
        place.names ++ [node.name] := by
    rw [Place.wanted, List.map_map]
    rfl
  simp only [List.map_flatMap, hnames]
  rw [List.nodup_flatMap]
  refine ⟨fun place hplace => ?_, (List.pairwise_map.mp (nodup_visited htidy htour)).imp fun hne => ?_⟩
  · exact nodup_names (htidy _ _ (under?_of_visited htidy htour place hplace).1).1 _ _
  · rintro _ hleft hright
    obtain ⟨node, -, rfl⟩ := List.mem_map.mp hleft
    obtain ⟨other, -, heq⟩ := List.mem_map.mp hright
    exact hne (List.append_inj' heq rfl).1.symm

end

/-- Every folder that the loop comes to is listed, if no listing fails. -/
theorem listed_of_visited {files : Files} {folder : String} {entries : List Node} {recurse : Bool} {visited : List Place}
    (htidy : TidyTree entries) (htour : Tour (Place.inner recurse) [⟨[], entries⟩] visited)
    (hfolder : files.entriesAt (listed folder) = .ok entries)
    (hlists : recurse = true → ∀ names name inner, Node.at? entries names = some (.folder name inner) →
      ∃ listing, files.entriesAt (pathOf folder names) = .ok listing) :
    ∀ place ∈ visited, Listed files folder place := by
  intro place hplace
  obtain ⟨hunder, hscope⟩ := under?_of_visited htidy htour place hplace
  by_cases hnil : place.names = []
  · rw [hnil] at hunder
    rw [Listed, hnil, ← Option.some.inj hunder]
    exact hfolder
  · obtain ⟨here, hlocate, hhere⟩ := Files.entriesAt_eq_ok.mp hfolder
    obtain ⟨node, hnode, hinner⟩ := Option.bind_eq_some_iff.mp (Node.under?_eq _ hnil ▸ hunder)
    cases node with
    | file => cases hinner
    | folder name inner =>
      obtain ⟨listing, hlisting⟩ := hlists (hscope.resolve_right hnil) _ _ _ hnode
      rw [← Files.listed_pathOf htidy hunder hnil] at hlisting
      rw [Listed, hlisting, Files.entriesAt_pathOf htidy (Files.locate_eq_ok.mp hlocate).2 hhere hunder hlisting]

/-- The path of an item is that of its names. -/
theorem itemAt_eq {names : List String} {node : Node} {entries : List Node} (folder : String)
    (h : Node.at? entries names = some node) :
    itemAt folder (names, node) = ⟨node.name, pathOf folder names.dropLast, pathOf folder names, node.size, node.isFolder⟩ := by
  rcases List.eq_nil_or_concat names with rfl | ⟨above, name, rfl⟩
  · cases h
  · rw [List.concat_eq_append] at h ⊢
    rw [Node.at?_concat, Option.bind_eq_some_iff] at h
    obtain ⟨upper, -, hnode⟩ := h
    have hname : node.name = name := by simpa using List.find?_some hnode
    rw [pathOf_concat, itemAt, List.dropLast_concat, item, hname]

/-- Whatever decides what matches, a loop from a folder ends. It makes a tour through the folder and, if it recurses, all those below
it, each in the order of the names, and hands out what is wanted in each: every entry that is wanted and matches once, with its
folder and path named by its place in the tree. -/
theorem drains_tree (files : Files) (matcher : String → Bool) (mode : FolderMode) (recurse : Bool) (folder : String)
    (entries : List Node) (htidy : TidyTree entries) (hfolder : files.entriesAt (listed folder) = .ok entries)
    (hlists : recurse = true → ∀ names name inner, Node.at? entries names = some (.folder name inner) →
      ∃ listing, files.entriesAt (pathOf folder names) = .ok listing) :
    ∃ (top : List String) (visited : List Place),
      let found := visited.flatMap (Place.wanted matcher mode)
      files.locate (listed folder) = .ok top.reverse ∧
      Tour (Place.inner recurse) [⟨[], entries⟩] visited ∧
      (∀ place ∈ visited, Listed files folder place ∧ (byName place.entries).Perm place.entries ∧
        (byName place.entries).Pairwise fun a b => a.name < b.name) ∧
      Drains files { matcher, mode, recurse, pending := [folder], ready := [] } (found.map (itemAt folder)) ∧
      (found.map (·.1)).Nodup ∧
      (∀ names node, (names, node) ∈ found ↔
        Node.at? entries names = some node ∧ (recurse = true ∨ names.length = 1) ∧ mode.wants node.isFolder = true ∧
          matcher node.name = true) ∧
      ∀ names node, (names, node) ∈ found →
        itemAt folder (names, node) =
            ⟨node.name, pathOf folder names.dropLast, pathOf folder names, node.size, node.isFolder⟩ ∧
          ((pathOf folder names).utf8ByteSize ≤ Files.maxPath →
            files.find (pathOf folder names) = .ok (.entry (top ++ names) node)) := by
  obtain ⟨here, hlocate, hhere⟩ := Files.entriesAt_eq_ok.mp hfolder
  have hfollow := (Files.locate_eq_ok.mp hlocate).2
  obtain ⟨visited, htour, hlength⟩ := exists_tour recurse entries
  have hplaces := under?_of_visited htidy htour
  have hlisted := listed_of_visited htidy htour hfolder hlists
  refine ⟨here.reverse, visited, by rwa [List.reverse_reverse], htour, fun place hplace => ?_, ?_, nodup_found htidy htour,
    fun names node => mem_found htidy htour, fun names node hfound => ?_⟩
  · exact ⟨hlisted place hplace, byName_perm _, byName_sorted (htidy _ _ (hplaces place hplace).1).1⟩
  · have hfew : Node.countAll entries ≤ Node.countAll files.entries :=
      Node.countAll_under? (Files.folderAt_eq_ok.mp hhere)
    have hdrains := drains_of_tour matcher mode htour hlisted (by simpa using by omega)
    rw [List.map_flatMap]
    exact hdrains
  · obtain ⟨hnode, -⟩ := (mem_found htidy htour).mp hfound
    refine ⟨itemAt_eq folder hnode, fun hshort => ?_⟩
    obtain ⟨place, hplace, hwanted⟩ := List.mem_flatMap.mp hfound
    obtain ⟨-, -, -, rfl⟩ := mem_wanted.mp hwanted
    obtain ⟨there, hthere, -⟩ := Files.entriesAt_eq_ok.mp (hlisted place hplace)
    rw [pathOf_concat] at hshort ⊢
    exact Files.find_pathOf htidy hfollow hhere (Files.locate_eq_ok.mp hthere).1 hnode hshort

/-- A folder with a file that matches, and with another one in a folder that does not match. -/
def nested : List Node :=
  [.file "b.txt" .empty, .folder "a" [.file "c.txt" .empty], .file "n.md" .empty]

/-- The tree of `nested` is tidy. -/
theorem tidyTree_nested : TidyTree nested := by
  refine .intro (by decide) (by simp only [nested, List.forall_mem_cons]; decide) fun node hnode inner hinner => ?_
  simp only [nested, List.mem_cons, List.not_mem_nil, or_false] at hnode
  rcases hnode with rfl | rfl | rfl
  · cases hinner
  · cases hinner
    refine .intro (by decide) (by simp only [List.forall_mem_cons]; decide) fun node hnode inner hinner => ?_
    obtain rfl := List.mem_singleton.mp hnode
    cases hinner
  · cases hinner

/-- There is but one folder in it. -/
theorem eq_of_at?_nested {names : List String} {name : String} {inner : List Node}
    (h : Node.at? nested names = some (.folder name inner)) : names = ["a"] := by
  have hin {entries below : List Node} {name : String} (h : Node.within? entries name = some below) :
      ∃ node ∈ entries, node.inner? = some below ∧ node.name = name := by
    obtain ⟨node, hnode, hbelow⟩ := Option.bind_eq_some_iff.mp h
    exact ⟨node, List.mem_of_find?_eq_some hnode, hbelow, by simpa using List.find?_some hnode⟩
  have hsome : names ≠ [] := by
    rintro rfl
    cases h
  have hunder : Node.under? nested names = some inner := by
    rw [Node.under?_eq _ hsome, h]
    rfl
  obtain ⟨first, rest, rfl⟩ := List.exists_cons_of_ne_nil hsome
  obtain ⟨below, hbelow, hunder⟩ := Option.bind_eq_some_iff.mp hunder
  obtain ⟨node, hnode, hbelow, rfl⟩ := hin hbelow
  simp only [nested, List.mem_cons, List.not_mem_nil, or_false] at hnode
  rcases hnode with rfl | rfl | rfl
  · cases hbelow
  · cases hbelow
    cases rest with
    | nil => rfl
    | cons second rest =>
      obtain ⟨below, hbelow, -⟩ := Option.bind_eq_some_iff.mp hunder
      obtain ⟨node, hnode, hbelow, -⟩ := hin hbelow
      obtain rfl := List.mem_singleton.mp hnode
      cases hbelow
  · cases hbelow

set_option maxRecDepth 2000 in
/-- The pattern of text files is small enough for a matcher. -/
theorem isAllowed_texts : Wildcard.isAllowed "*.txt" = true := by cbv

/-- The loop over `d/*.txt` finds the file in the inner folder, which does not match itself. -/
theorem drains_tree_nested :
    ∃ (cursor : FolderCursor) (visited : List Place), start wildcard "d/*.txt" .files true = .ok cursor ∧
      Tour (Place.inner true) [⟨[], nested⟩] visited ∧
      Drains ⟨[.folder "d" nested]⟩ cursor
        ((visited.flatMap (Place.wanted (Wildcard.accepts "*.txt") .files)).map (itemAt "d")) ∧
      (["a", "c.txt"], .file "c.txt" .empty) ∈ visited.flatMap (Place.wanted (Wildcard.accepts "*.txt") .files) ∧
      (⟨[.folder "d" nested]⟩ : Files).find "d/a/c.txt" = .ok (.entry ["d", "a", "c.txt"] (.file "c.txt" .empty)) := by
  have hstart : start wildcard "d/*.txt" .files true =
      .ok { matcher := Wildcard.accepts "*.txt", mode := .files, recurse := true, pending := ["d"], ready := [] } := by
    have hsplit : splitPattern "d/*.txt" = ("d", "*.txt") := by decide +kernel
    rw [start, hsplit]
    simp only [wildcard, checkPattern, isAllowed_texts, if_true]
    rfl
  have hfolder : (⟨[.folder "d" nested]⟩ : Files).entriesAt (listed "d") = .ok nested := rfl
  have hlists : true = true → ∀ names name inner, Node.at? nested names = some (.folder name inner) →
      ∃ listing, (⟨[.folder "d" nested]⟩ : Files).entriesAt (pathOf "d" names) = .ok listing := by
    intro _ names name inner hnode
    obtain rfl := eq_of_at?_nested hnode
    exact ⟨_, rfl⟩
  obtain ⟨top, visited, -, htour, -, hdrains, -, hfound, hplaces⟩ :=
    drains_tree ⟨[.folder "d" nested]⟩ (Wildcard.accepts "*.txt") .files true "d" nested tidyTree_nested hfolder hlists
  have hmem := (hfound ["a", "c.txt"] (.file "c.txt" .empty)).mpr ⟨rfl, .inl rfl, rfl, by decide⟩
  exact ⟨_, visited, hstart, htour, hdrains, hmem, rfl⟩

end FolderCursor

end LineScript
