import LineScript.Loop.Folder
import LineScript.Proofs.Text.Pieces
import Mathlib.Data.List.Induction

/-!
# Paths in a folder tree

Names lead from a folder to the entries below it. A path that leads to a folder, joined with the name of an entry, leads to that entry
(`Files.follow_join`), so the joined path of some names is a path to the place that the names lead to (`Files.follow_pathOf`).
-/

namespace LineScript

open Text

/-- What a folder may call its entries. -/
structure IsFileName (name : String) : Prop where
  nonblank : name ≠ ""
  not_here : name ≠ "."
  not_above : name ≠ ".."
  single : '/' ∉ name.toList
  no_nul : '\x00' ∉ name.toList
  short : name.utf8ByteSize ≤ Files.maxName

instance (name : String) : Decidable (IsFileName name) :=
  decidable_of_iff (name ≠ "" ∧ name ≠ "." ∧ name ≠ ".." ∧ '/' ∉ name.toList ∧ '\x00' ∉ name.toList ∧
      name.utf8ByteSize ≤ Files.maxName)
    ⟨fun ⟨h1, h2, h3, h4, h5, h6⟩ => ⟨h1, h2, h3, h4, h5, h6⟩, fun ⟨h1, h2, h3, h4, h5, h6⟩ => ⟨h1, h2, h3, h4, h5, h6⟩⟩

/-! ## Names -/

namespace Node

variable {entries inner : List Node} {name : String} {names : List String} {node : Node}

/-- The entries of a folder. -/
def inner? : Node → Option (List Node)
  | file .. => none
  | folder _ inner => some inner

/-- The entries of the folder of a name. -/
def within? (entries : List Node) (name : String) : Option (List Node) :=
  (find? entries name).bind inner?

/-- The entries of the folder that names lead to from some entries; no names lead to these entries. -/
def under? : List Node → List String → Option (List Node)
  | entries, [] => some entries
  | entries, name :: rest => (within? entries name).bind (under? · rest)

/-- The entries under some names and then some more are those under the second names in what is under the first. -/
theorem under?_append (entries : List Node) (names rest : List String) :
    under? entries (names ++ rest) = (under? entries names).bind (under? · rest) := by
  induction names generalizing entries with
  | nil => rfl
  | cons name names ih =>
    rw [List.cons_append, under?, under?, Option.bind_assoc]
    exact Option.bind_congr fun inner _ => ih inner

/-- The entry at some names is the one at all but the first of them, within the folder of the first. -/
theorem at?_cons (entries : List Node) (name : String) (h : names ≠ []) :
    at? entries (name :: names) = (within? entries name).bind (at? · names) := by
  rw [at?]
  · rw [within?]
    rcases find? entries name with _ | _ | _ <;> rfl
  · exact fun hnil => h hnil

/-- The last name is one in the folder that those before it lead to. -/
theorem at?_concat (entries : List Node) (names : List String) (name : String) :
    at? entries (names ++ [name]) = (under? entries names).bind (find? · name) := by
  induction names generalizing entries with
  | nil => rfl
  | cons first names ih =>
    rw [List.cons_append, at?_cons _ _ (by simp), under?, Option.bind_assoc]
    exact Option.bind_congr fun inner _ => ih inner

/-- The entry at some names is the one at the last of them, under the first. -/
theorem at?_append (entries : List Node) (above : List String) (h : names ≠ []) :
    at? entries (above ++ names) = (under? entries above).bind (at? · names) := by
  induction above generalizing entries with
  | nil => rfl
  | cons first above ih =>
    rw [List.cons_append, at?_cons _ _ (by simp [h]), under?, Option.bind_assoc]
    exact Option.bind_congr fun inner _ => ih inner

/-- The entries under some names are those in the entry at these names. -/
theorem under?_eq (entries : List Node) (h : names ≠ []) : under? entries names = (at? entries names).bind inner? := by
  induction names generalizing entries with
  | nil => exact absurd rfl h
  | cons name names ih =>
    by_cases hnames : names = []
    · subst hnames
      exact Option.bind_fun_some _
    · rw [under?, at?_cons _ _ hnames, Option.bind_assoc]
      exact Option.bind_congr fun inner _ => ih inner hnames

/-! ### Sizes -/

/-- The order of entries does not change how many there are in all. -/
theorem countAll_perm {nodes : List Node} (h : nodes.Perm entries) : countAll nodes = countAll entries := by
  induction h with
  | nil => rfl
  | cons node _ ih => rw [countAll, countAll, ih]
  | swap first second rest =>
    simp only [countAll]
    omega
  | trans _ _ ih ih' => exact ih.trans ih'

/-- An entry and what is in it are no more than there are in all. -/
theorem count_le_of_mem (h : node ∈ entries) : node.count ≤ countAll entries := by
  induction entries with
  | nil => cases h
  | cons first entries ih =>
    rw [countAll]
    rcases List.mem_cons.mp h with rfl | h
    · omega
    · have hrest := ih h
      omega

/-- In a folder are fewer entries than the folder and what is in it. -/
theorem countAll_lt_of_inner? (h : node.inner? = some inner) : countAll inner < node.count := by
  cases node with
  | file => cases h
  | folder name entries =>
    cases h
    rw [count]
    omega

/-- What is below some entries is no more than these. -/
theorem countAll_under? (h : under? entries names = some inner) : countAll inner ≤ countAll entries := by
  induction names generalizing entries with
  | nil => exact Nat.le_of_eq (congrArg countAll (Option.some.inj h).symm)
  | cons name names ih =>
    rw [under?, Option.bind_eq_some_iff] at h
    obtain ⟨below, hbelow, h⟩ := h
    obtain ⟨node, hnode, hinner⟩ := Option.bind_eq_some_iff.mp hbelow
    have hcount := count_le_of_mem (List.mem_of_find?_eq_some hnode)
    have hless := countAll_lt_of_inner? hinner
    have hrest := ih h
    omega

end Node

/-! ## Paths -/

namespace Files

open FolderCursor (join)

variable {files : Files} {folder name : String} {here : List String} {entries : List Node}

/-- Following some parts and then some more is following the first and going on from there. -/
theorem follow_append (files : Files) (here parts rest : List String) :
    files.follow here (parts ++ rest) = (files.follow here parts).bind (files.follow · rest) := by
  induction parts generalizing here with
  | nil => rfl
  | cons part parts ih =>
    rw [List.cons_append, follow, follow]
    split
    · rfl
    · split
      · exact ih _
      · split
        · exact ih _
        · split
          · rfl
          · split
            · exact ih _
            · rfl

/-- Following the name of an entry leads to that entry. -/
theorem follow_name (hname : IsFileName name) (hhere : files.folderAt here = .ok entries)
    (hentry : (Node.find? entries name).isSome) : files.follow here [name] = .ok (name :: here) := by
  have hself : ¬ (name == "" || name == ".") = true := by simp [hname.nonblank, hname.not_here]
  have habove : ¬ (name == "..") = true := by simp [hname.not_above]
  rw [follow, hhere]
  simp only
  rw [if_neg hself, if_neg habove, if_neg (Nat.not_lt.mpr hname.short), if_pos hentry, follow]

/-- A blank component leads nowhere else. -/
theorem eq_of_follow_blank {there : List String} (h : files.follow here [""] = .ok there) : here = there := by
  rw [follow] at h
  split at h
  · cases h
  · exact Except.ok.inj h

/-- The folder at a place is what the tree has under the names that lead there. -/
theorem folderAt_eq_ok : files.folderAt here = .ok entries ↔ Node.under? files.entries here.reverse = some entries := by
  cases here with
  | nil => exact ⟨fun h => congrArg some (Except.ok.inj h), fun h => congrArg Except.ok (Option.some.inj h)⟩
  | cons part here =>
    rw [folderAt, Node.under?_eq _ (by simp)]
    · rcases Node.at? files.entries (part :: here).reverse with _ | _ | ⟨_, inner⟩
      · exact ⟨nofun, nofun⟩
      · exact ⟨nofun, nofun⟩
      · exact ⟨fun h => congrArg some (Except.ok.inj h), fun h => congrArg Except.ok (Option.some.inj h)⟩
    · exact nofun

/-! ### Components -/

/-- The parts of two paths with a slash between them are those of both. -/
theorem components_append (above below : String) :
    components (above ++ "/" ++ below) = components above ++ components below := by
  have hlist : (above ++ "/" ++ below).toList = above.toList ++ '/' :: below.toList := by simp
  rw [components, components, components, hlist, splitBy_append rfl, List.map_append]

/-- A name without slashes is the one part of its path. -/
theorem components_single (h : '/' ∉ name.toList) : components name = [name] := by
  have hplain : ∀ c ∈ name.toList, (c == '/') = false := by
    rintro c hc
    refine beq_false_of_ne ?_
    rintro rfl
    exact h hc
  rw [components, splitBy_of_forall hplain, List.map_singleton, String.ofList_toList]

/-- The path under which a folder is listed; that of the working folder may be blank. -/
def listed (folder : String) : String :=
  if folder.isEmpty then "." else folder

/-- A path that ends with a file name is listed as it stands. -/
theorem listed_join (folder : String) (hname : IsFileName name) : listed (join folder name) = join folder name := by
  refine if_neg ?_
  rw [String.isEmpty_iff, join]
  split
  · exact hname.nonblank
  · split <;> simp [hname.nonblank]

/-- The joined path leads on to the entry. -/
theorem follow_join (hname : IsFileName name) (hfolder : files.follow [] (components (listed folder)) = .ok here)
    (hhere : files.folderAt here = .ok entries) (hentry : (Node.find? entries name).isSome) :
    files.follow [] (components (join folder name)) = .ok (name :: here) := by
  have hpart := components_single hname.single
  have hnext := follow_name hname hhere hentry
  by_cases hblank : folder.isEmpty
  · obtain rfl : here = [] := by
      rw [listed, if_pos hblank] at hfolder
      exact (Except.ok.inj hfolder).symm
    rw [join, if_pos hblank, hpart, hnext]
  · rw [listed, if_neg hblank] at hfolder
    rw [join, if_neg hblank]
    split
    · -- The path ends with a slash: its last component is blank, and the name takes its place.
      rename_i hslash
      obtain ⟨above, rfl⟩ : ∃ above, folder = above ++ "/" ++ "" := by
        obtain ⟨above, habove⟩ := List.getLast?_eq_some_iff.mp (eq_of_beq hslash)
        exact ⟨.ofList above, String.toList_injective (by simp [habove])⟩
      rw [components_append, follow_append] at hfolder
      rw [String.append_empty, components_append, follow_append, hpart]
      cases habove : files.follow [] (components above) with
      | error e =>
        rw [habove] at hfolder
        cases hfolder
      | ok there =>
        rw [habove] at hfolder
        obtain rfl : there = here := eq_of_follow_blank hfolder
        exact hnext
    · rw [components_append, follow_append, hfolder, hpart]
      exact hnext

/-! ### Paths that lead to places -/

/-- A path can be used if it is neither blank nor absolute, holds no null character, and is not too long. -/
theorem checkPath_eq_ok {path : String} :
    checkPath path = .ok () ↔ '\x00' ∉ path.toList ∧ path.utf8ByteSize ≤ maxPath ∧ path ≠ "" ∧ path.toList.head? ≠ some '/' := by
  have hnul : has path '\x00' = true ↔ '\x00' ∈ path.toList := by simp [has]
  rw [checkPath]
  by_cases hpath : '\x00' ∈ path.toList
  · rw [if_pos (hnul.mpr hpath)]
    exact ⟨nofun, fun h => absurd hpath h.1⟩
  · rw [if_neg (mt hnul.mp hpath)]
    by_cases hlong : maxPath < path.utf8ByteSize
    · rw [if_pos hlong]
      exact ⟨nofun, fun h => absurd h.2.1 (Nat.not_le.mpr hlong)⟩
    · rw [if_neg hlong]
      by_cases habsent : (path.isEmpty || path.toList.head? == some '/') = true
      · rw [if_pos habsent]
        refine ⟨nofun, fun h => ?_⟩
        simp [h.2.2] at habsent
      · rw [if_neg habsent]
        refine ⟨fun _ => ⟨hpath, Nat.not_lt.mp hlong, ?_⟩, fun _ => rfl⟩
        simpa using habsent

/-- A path leads to a place if it can be used and its parts can be followed there from the top. -/
theorem locate_eq_ok {path : String} :
    files.locate path = .ok here ↔ checkPath path = .ok () ∧ files.follow [] (components path) = .ok here := by
  rw [locate]
  cases checkPath path with
  | error e => exact ⟨nofun, nofun⟩
  | ok => exact (and_iff_right rfl).symm

/-- The entries of a path are those of the folder at the place it leads to. -/
theorem entriesAt_eq_ok {path : String} :
    files.entriesAt path = .ok entries ↔ ∃ here, files.locate path = .ok here ∧ files.folderAt here = .ok entries := by
  rw [entriesAt]
  cases files.locate path with
  | error e => exact ⟨nofun, nofun⟩
  | ok here =>
    refine ⟨fun h => ⟨here, rfl, h⟩, ?_⟩
    rintro ⟨there, hthere, h⟩
    obtain rfl := Except.ok.inj hthere
    exact h

/-- A path leads to an entry if it leads along the names of the entry. -/
theorem find_eq_entry {path : String} {names : List String} {node : Node} :
    files.find path = .ok (.entry names node) ↔
      names ≠ [] ∧ files.locate path = .ok names.reverse ∧ Node.at? files.entries names = some node := by
  rw [find]
  cases files.locate path with
  | error e => exact ⟨nofun, nofun⟩
  | ok here =>
    cases here with
    | nil =>
      refine ⟨nofun, ?_⟩
      rintro ⟨hnames, hlocate, -⟩
      exact absurd (List.reverse_eq_nil_iff.mp (Except.ok.inj hlocate).symm) hnames
    | cons name here =>
      dsimp only [bind, Except.bind]
      cases hat : Node.at? files.entries (name :: here).reverse with
      | none =>
        refine ⟨nofun, ?_⟩
        rintro ⟨-, hlocate, hnode⟩
        rw [Except.ok.inj hlocate, List.reverse_reverse, hnode] at hat
        cases hat
      | some found =>
        constructor
        · intro h
          cases h
          exact ⟨by simp, by rw [List.reverse_reverse], hat⟩
        · rintro ⟨-, hlocate, hnode⟩
          rw [Except.ok.inj hlocate, List.reverse_reverse, hnode] at hat
          rw [Except.ok.inj hlocate, List.reverse_reverse, Option.some.inj hat]
          rfl

/-- The path of an entry can be used if that of its folder can and the path is not too long. -/
theorem checkPath_join (hfolder : checkPath (listed folder) = .ok ()) (hname : IsFileName name)
    (hshort : (join folder name).utf8ByteSize ≤ maxPath) : checkPath (join folder name) = .ok () := by
  rw [checkPath_eq_ok] at hfolder ⊢
  by_cases hblank : folder.isEmpty
  · rw [join, if_pos hblank] at hshort ⊢
    exact ⟨hname.no_nul, hshort, hname.nonblank, fun hhead => hname.single (List.mem_of_head? hhead)⟩
  · rw [listed, if_neg hblank] at hfolder
    obtain ⟨hnul, -, hsome, hhead⟩ := hfolder
    obtain ⟨more, hlist, hmore⟩ : ∃ more, (join folder name).toList = folder.toList ++ more ∧ '\x00' ∉ more := by
      rw [join, if_neg hblank]
      split
      · exact ⟨name.toList, String.toList_append, hname.no_nul⟩
      · exact ⟨'/' :: name.toList, by simp, by simpa using hname.no_nul⟩
    have hcs : folder.toList ≠ [] := mt String.toList_eq_nil_iff.mp hsome
    refine ⟨?_, hshort, ?_, ?_⟩
    · rw [hlist, List.mem_append]
      exact fun h => h.elim hnul hmore
    · rw [Ne, ← String.toList_eq_nil_iff, hlist]
      simp [hcs]
    · rwa [hlist, List.head?_append, Option.or_of_isSome (by simpa using hcs)]

/-- The path that leads on from a folder along some names. -/
def pathOf (folder : String) (names : List String) : String :=
  names.foldl join folder

/-- The path at some names and one more is the path at these names, joined with it. -/
theorem pathOf_concat (folder : String) (names : List String) (name : String) :
    pathOf folder (names ++ [name]) = join (pathOf folder names) name := by
  rw [pathOf, List.foldl_append]
  rfl

/-- In every folder below some entries the names are names of files, and no two entries have the same one. -/
def TidyTree (entries : List Node) : Prop :=
  ∀ names inner, Node.under? entries names = some inner →
    (inner.map (·.name)).Nodup ∧ ∀ node ∈ inner, IsFileName node.name

/-- A tree is tidy if its top has different file names only and all of its folders are tidy. -/
theorem TidyTree.intro (hdistinct : (entries.map (·.name)).Nodup) (hnames : ∀ node ∈ entries, IsFileName node.name)
    (hinner : ∀ node ∈ entries, ∀ inner, node.inner? = some inner → TidyTree inner) : TidyTree entries := by
  intro names inner h
  cases names with
  | nil =>
    obtain rfl := Option.some.inj h
    exact ⟨hdistinct, hnames⟩
  | cons name names =>
    obtain ⟨below, hbelow, h⟩ := Option.bind_eq_some_iff.mp h
    obtain ⟨node, hnode, hbelow⟩ := Option.bind_eq_some_iff.mp hbelow
    exact hinner node (List.mem_of_find?_eq_some hnode) below hbelow names inner h

/-- The folders in a tidy tree are tidy. -/
theorem TidyTree.inner {inner : List Node} {names : List String} (h : TidyTree entries)
    (hinner : Node.under? entries names = some inner) : TidyTree inner := by
  intro more below hbelow
  refine h (names ++ more) below ?_
  rw [Node.under?_append, hinner]
  exact hbelow

/-- What is found in a tidy tree is found by a file name. -/
theorem TidyTree.isFileName (h : TidyTree entries) {names : List String} {inner : List Node}
    (hinner : Node.under? entries names = some inner) {node : Node} (hnode : Node.find? inner name = some node) :
    IsFileName name := by
  have hmem := List.mem_of_find?_eq_some hnode
  have hname : node.name = name := by simpa using List.find?_some hnode
  exact hname ▸ (h names inner hinner).2 node hmem

/-- The folder at some names below a place is what the folder of the place has under these names. -/
theorem folderAt_append (hhere : files.folderAt here = .ok entries) {names : List String} {inner : List Node}
    (hinner : Node.under? entries names = some inner) : files.folderAt (names.reverse ++ here) = .ok inner := by
  rw [folderAt_eq_ok] at hhere ⊢
  rw [List.reverse_append, List.reverse_reverse, Node.under?_append, hhere]
  exact hinner

section

variable (htidy : TidyTree entries) (hfolder : files.follow [] (components (listed folder)) = .ok here)
  (hhere : files.folderAt here = .ok entries) {names : List String}

include htidy hfolder hhere

/-- The joined path of some names leads to the folder that the names lead to. -/
theorem follow_pathOf {inner : List Node} (hinner : Node.under? entries names = some inner) :
    files.follow [] (components (listed (pathOf folder names))) = .ok (names.reverse ++ here) := by
  induction names using List.reverseRecOn generalizing inner with
  | nil => exact hfolder
  | append_singleton names name ih =>
    rw [Node.under?_append, Option.bind_eq_some_iff] at hinner
    obtain ⟨upper, hupper, hinner⟩ := hinner
    obtain ⟨below, hbelow, -⟩ := Option.bind_eq_some_iff.mp hinner
    obtain ⟨node, hnode, -⟩ := Option.bind_eq_some_iff.mp hbelow
    have hname := htidy.isFileName hupper hnode
    rw [pathOf_concat, listed_join _ hname, List.reverse_append]
    exact follow_join hname (ih hupper) (folderAt_append hhere hupper) (by rw [hnode]; rfl)

omit hfolder hhere in
/-- The path of a folder below another one is listed as it stands. -/
theorem listed_pathOf {inner : List Node} (hinner : Node.under? entries names = some inner) (hsome : names ≠ []) :
    listed (pathOf folder names) = pathOf folder names := by
  rcases List.eq_nil_or_concat names with hnil | ⟨above, name, rfl⟩
  · exact absurd hnil hsome
  · rw [List.concat_eq_append] at hinner ⊢
    rw [Node.under?_eq _ (by simp), Node.at?_concat, Option.bind_eq_some_iff] at hinner
    obtain ⟨node, hnode, -⟩ := hinner
    obtain ⟨upper, hupper, hnode⟩ := Option.bind_eq_some_iff.mp hnode
    rw [pathOf_concat, listed_join _ (htidy.isFileName hupper hnode)]

/-- The folder that names lead to is listed under their joined path, if it is not too long. -/
theorem entriesAt_pathOf {inner listing : List Node} (hinner : Node.under? entries names = some inner)
    (hlisting : files.entriesAt (listed (pathOf folder names)) = .ok listing) : listing = inner := by
  obtain ⟨there, hthere, hlisting⟩ := entriesAt_eq_ok.mp hlisting
  obtain rfl := Except.ok.inj ((locate_eq_ok.mp hthere).2.symm.trans (follow_pathOf htidy hfolder hhere hinner))
  exact Except.ok.inj (hlisting.symm.trans (folderAt_append hhere hinner))

/-- The joined path of some names leads to the entry that the names lead to, if it is not too long. -/
theorem find_pathOf {name : String} {node : Node} (hlisted : checkPath (listed (pathOf folder names)) = .ok ())
    (hnode : Node.at? entries (names ++ [name]) = some node)
    (hshort : (join (pathOf folder names) name).utf8ByteSize ≤ maxPath) :
    files.find (join (pathOf folder names) name) = .ok (.entry (here.reverse ++ (names ++ [name])) node) := by
  have hwhole : Node.at? files.entries (here.reverse ++ (names ++ [name])) = some node := by
    rw [Node.at?_append _ _ (by simp), folderAt_eq_ok.mp hhere]
    exact hnode
  rw [Node.at?_concat, Option.bind_eq_some_iff] at hnode
  obtain ⟨upper, hupper, hnode⟩ := hnode
  have hname := htidy.isFileName hupper hnode
  refine find_eq_entry.mpr ⟨by simp, locate_eq_ok.mpr ⟨checkPath_join hlisted hname hshort, ?_⟩, hwhole⟩
  rw [List.reverse_append, List.reverse_append, List.reverse_reverse]
  exact follow_join hname (follow_pathOf htidy hfolder hhere hupper) (folderAt_append hhere hupper) (by rw [hnode]; rfl)

end

end Files

end LineScript
