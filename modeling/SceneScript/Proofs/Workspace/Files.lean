import Mathlib.Data.List.Nodup
import SceneScript.Proofs.Workspace.Names

namespace SceneScript

namespace Entry

/-! ### Trees -/

inductive Found where
  | file (content : Except FileError ByteArray)
  | closed (reason : FileError)

/-- These names lead from an entry to a file, or to a directory that cannot be listed. Where a link
leads to nothing stands a file that cannot be read. -/
inductive Leads : Entry → List FileName → Found → Prop
  | file (content : Except FileError ByteArray) : Leads (.file content) [] (.file content)
  | closed (reason : FileError) : Leads (.closed reason) [] (.closed reason)
  | missing (reason : FileError) : Leads (.missing reason) [] (.file (.error reason))
  | link {target : Entry} {path : List FileName} {found : Found} :
      Leads target path found → Leads (.link target) path found
  | inside {entries : List (FileName × Entry)} {name : FileName} {entry : Entry}
      {path : List FileName} {found : Found} : (name, entry) ∈ entries → Leads entry path found →
      Leads (.directory entries) (name :: path) found

/-- A tree as a file system has it: a directory names each of its entries once, and its names can
stand in paths. -/
inductive WellNamed : Entry → Prop
  | file (content : Except FileError ByteArray) : WellNamed (.file content)
  | closed (reason : FileError) : WellNamed (.closed reason)
  | missing (reason : FileError) : WellNamed (.missing reason)
  | link {target : Entry} : WellNamed target → WellNamed (.link target)
  | directory {entries : List (FileName × Entry)} : (entries.map Prod.fst).Nodup →
      ArePathNames (entries.map Prod.fst) → (∀ e ∈ entries, WellNamed e.2) →
      WellNamed (.directory entries)

/-- Two trees that differ in the order in which directories list their entries. -/
inductive Reordered : Entry → Entry → Prop
  | listing {entries others : List (FileName × Entry)} : entries.Perm others →
      Reordered (.directory entries) (.directory others)
  | inside {before after : List (FileName × Entry)} {name : FileName} {entry other : Entry} :
      Reordered entry other → Reordered (.directory (before ++ (name, entry) :: after))
        (.directory (before ++ (name, other) :: after))
  | link {target other : Entry} : Reordered target other → Reordered (.link target) (.link other)
  | trans {entry between other : Entry} : Reordered entry between → Reordered between other →
      Reordered entry other

theorem leads_file_iff {content : Except FileError ByteArray} {path : List FileName}
    {found : Found} : (file content).Leads path found ↔ path = [] ∧ found = .file content := by
  constructor
  · rintro ⟨⟩
    exact ⟨rfl, rfl⟩
  · rintro ⟨rfl, rfl⟩
    exact .file content

theorem leads_missing_iff {reason : FileError} {path : List FileName} {found : Found} :
    (missing reason).Leads path found ↔ path = [] ∧ found = .file (.error reason) := by
  constructor
  · rintro ⟨⟩
    exact ⟨rfl, rfl⟩
  · rintro ⟨rfl, rfl⟩
    exact .missing reason

theorem leads_link_iff {target : Entry} {path : List FileName} {found : Found} :
    (link target).Leads path found ↔ target.Leads path found := by
  constructor
  · rintro ⟨⟩
    assumption
  · exact .link

theorem leads_directory_iff {entries : List (FileName × Entry)} {path : List FileName}
    {found : Found} : (directory entries).Leads path found ↔
      ∃ name entry rest, path = name :: rest ∧ (name, entry) ∈ entries ∧
        entry.Leads rest found := by
  constructor
  · rintro ⟨⟩
    next name entry rest hmem hleads => exact ⟨name, entry, rest, rfl, hmem, hleads⟩
  · rintro ⟨name, entry, rest, rfl, hmem, hleads⟩
    exact .inside hmem hleads

theorem leads_directory_cons_iff {name : FileName} {entry : Entry} {more : List (FileName × Entry)}
    {path : List FileName} {found : Found} :
    (directory ((name, entry) :: more)).Leads path found ↔
      (∃ rest, path = name :: rest ∧ entry.Leads rest found) ∨
        (directory more).Leads path found := by
  simp only [leads_directory_iff, List.mem_cons, Prod.mk.injEq]
  constructor
  · rintro ⟨_, _, rest, hpath, ⟨rfl, rfl⟩ | hmem, hleads⟩
    · exact .inl ⟨rest, hpath, hleads⟩
    · exact .inr ⟨_, _, rest, hpath, hmem, hleads⟩
  · rintro (⟨rest, hpath, hleads⟩ | ⟨name', entry', rest, hpath, hmem, hleads⟩)
    · exact ⟨name, entry, rest, hpath, .inl ⟨rfl, rfl⟩, hleads⟩
    · exact ⟨name', entry', rest, hpath, .inr hmem, hleads⟩

theorem leads_iff_of_perm {entries others : List (FileName × Entry)} (h : entries.Perm others)
    (path : List FileName) (found : Found) :
    (directory entries).Leads path found ↔ (directory others).Leads path found := by
  simp only [leads_directory_iff, h.mem_iff]

/-- What is no directory has a content, and nothing below it. -/
theorem leads_iff_of_isDirectory : ∀ entry : Entry, entry.isDirectory = false →
    ∃ content, entry.read = content.bind text ∧
      ∀ path found, entry.Leads path found ↔ path = [] ∧ found = .file content
  | .file content, _ => ⟨content, rfl, fun _ _ => leads_file_iff⟩
  | .missing reason, _ => ⟨.error reason, rfl, fun _ _ => leads_missing_iff⟩
  | .link target, h => by
    obtain ⟨content, hread, hleads⟩ := leads_iff_of_isDirectory target h
    exact ⟨content, hread, fun path found => leads_link_iff.trans (hleads path found)⟩

theorem WellNamed.arePathNames {entry : Entry} {path : List FileName} {found : Found}
    (h : entry.Leads path found) (hnamed : entry.WellNamed) : ArePathNames path := by
  induction h with
  | file => exact List.forall_mem_nil _
  | closed => exact List.forall_mem_nil _
  | missing => exact List.forall_mem_nil _
  | link _ ih =>
    cases hnamed with
    | link htarget => exact ih htarget
  | inside hmem _ ih =>
    cases hnamed with
    | directory _ hnames hentries =>
      exact List.forall_mem_cons.2 ⟨hnames _ (List.mem_map_of_mem hmem), ih (hentries _ hmem)⟩

/-- A path leads to one thing. -/
theorem WellNamed.found_eq {entry : Entry} {path : List FileName} {found found' : Found}
    (hnamed : entry.WellNamed) (h : entry.Leads path found) (h' : entry.Leads path found') :
    found = found' := by
  -- Names are different within a directory, so the second path can only follow the first.
  induction h with
  | file => cases h'; rfl
  | closed => cases h'; rfl
  | missing => cases h'; rfl
  | link _ ih =>
    cases hnamed with
    | link htarget => exact ih htarget (leads_link_iff.1 h')
  | inside hmem _ ih =>
    cases hnamed with
    | directory hnodup _ hentries =>
      obtain ⟨_, other, _, heq, hmem', hleads⟩ := leads_directory_iff.1 h'
      cases heq
      have hsame := List.inj_on_of_nodup_map hnodup hmem' hmem rfl
      cases hsame
      exact ih (hentries _ hmem) hleads

section Reordered
variable {entry other : Entry} (h : entry.Reordered other)
include h

theorem Reordered.leads_iff (path : List FileName) (found : Found) :
    entry.Leads path found ↔ other.Leads path found := by
  induction h generalizing path found with
  | listing hperm => exact leads_iff_of_perm hperm path found
  | inside _ ih =>
    rw [leads_iff_of_perm List.perm_middle, leads_iff_of_perm List.perm_middle,
      leads_directory_cons_iff, leads_directory_cons_iff]
    simp only [ih]
  | link _ ih => rw [leads_link_iff, leads_link_iff, ih]
  | trans _ _ ih ih' => exact (ih path found).trans (ih' path found)

theorem Reordered.wellNamed (hnamed : entry.WellNamed) : other.WellNamed := by
  induction h with
  | listing hperm =>
    cases hnamed with
    | directory hnodup hnames hentries =>
      refine .directory ((hperm.map _).nodup_iff.1 hnodup) ?_ ?_
      · intro name hname
        exact hnames name ((hperm.map _).mem_iff.2 hname)
      · intro e he
        exact hentries e (hperm.mem_iff.2 he)
  | @inside before after name entry other _ ih =>
    cases hnamed with
    | directory hnodup hnames hentries =>
      rw [List.map_append, List.map_cons] at hnodup hnames
      rw [List.forall_mem_append, List.forall_mem_cons] at hentries
      refine .directory ?_ ?_ ?_
      · rwa [List.map_append, List.map_cons]
      · rwa [List.map_append, List.map_cons]
      · rw [List.forall_mem_append, List.forall_mem_cons]
        exact ⟨hentries.1, ih hentries.2.1, hentries.2.2⟩
  | link _ ih =>
    cases hnamed with
    | link htarget => exact .link (ih htarget)
  | trans _ _ ih ih' => exact ih' (ih hnamed)

theorem Reordered.isDirectory_eq : other.isDirectory = entry.isDirectory := by
  induction h with
  | listing => rfl
  | inside => rfl
  | link _ ih => exact ih
  | trans _ _ ih ih' => exact ih'.trans ih

end Reordered

/-! ### What a walk collects -/

def IsVisible (path : List FileName) : Prop := ∀ name ∈ path, name.isHidden = false

def Found.outcome : Found → Except FileError String
  | file content => content.bind text
  | closed reason => .error reason

def Found.IsWanted (wanted : String) (path : List FileName) : Found → Prop
  | file _ => ∃ name ∈ path.getLast?, name.extension? = some (FileName.ofString wanted)
  | closed _ => True

/-- What a walk comes to below an entry, by the paths from the root, on which the entry stands at
`place`. -/
def Meets (wanted : String) (place : List FileName) (entry : Entry) (path : List FileName)
    (outcome : Except FileError String) : Prop :=
  ∃ rest found, path = place ++ rest ∧ entry.Leads rest found ∧ IsVisible rest ∧
    found.IsWanted wanted path ∧ outcome = found.outcome

/-- A walk that meets these outcomes: it finds the texts under their paths, and fails with one of
the errors if there is any. -/
structure Collects (x : Except FileError (List (String × String)))
    (meets : List FileName → Except FileError String → Prop) : Prop where
  mem_iff : ∀ found, x = .ok found → ∀ key text, (key, text) ∈ found ↔
    ∃ path, meets path (.ok text) ∧ key = keyOf path
  fails : ∀ path e, meets path (.error e) → ∃ e, x = .error e
  reason : ∀ e, x = .error e → ∃ path, meets path (.error e)

section Collects
variable {x y : Except FileError (List (String × String))}
  {meets more : List FileName → Except FileError String → Prop}

theorem Collects.congr (h : Collects x meets)
    (hiff : ∀ path outcome, more path outcome ↔ meets path outcome) : Collects x more := by
  have heq : more = meets := by
    funext path outcome
    exact propext (hiff path outcome)
  rwa [heq]

theorem Collects.nil (h : ∀ path outcome, ¬ meets path outcome) : Collects (.ok []) meets where
  mem_iff := by
    rintro found ⟨⟩ key text
    simp [h]
  fails path e hmeets := absurd hmeets (h path _)
  reason := nofun

/-- One outcome is met at its path. -/
theorem Collects.single (path : List FileName) (outcome : Except FileError String) :
    Collects (outcome.map fun text => [(keyOf path, text)])
      fun path' outcome' => path' = path ∧ outcome' = outcome := by
  cases outcome with
  | error e =>
    refine ⟨nofun, fun _ _ _ => ⟨e, rfl⟩, ?_⟩
    rintro _ ⟨⟩
    exact ⟨path, rfl, rfl⟩
  | ok text =>
    refine ⟨?_, nofun, nofun⟩
    rintro found ⟨⟩ key text'
    simp [and_comm]

/-- One walk after the other meets the outcomes of both. -/
theorem Collects.append (hx : Collects x meets) (hy : Collects y more) :
    Collects (do return (← x) ++ (← y)) fun path outcome =>
      meets path outcome ∨ more path outcome := by
  cases x with
  | error e =>
    refine ⟨nofun, fun _ _ _ => ⟨e, rfl⟩, ?_⟩
    rintro _ ⟨⟩
    obtain ⟨path, hmeets⟩ := hx.reason e rfl
    exact ⟨path, .inl hmeets⟩
  | ok a =>
    have hnone : ∀ path e, ¬ meets path (.error e) := by
      intro path e hmeets
      obtain ⟨_, h⟩ := hx.fails path e hmeets
      cases h
    cases y with
    | error e =>
      refine ⟨nofun, fun _ _ _ => ⟨e, rfl⟩, ?_⟩
      rintro _ ⟨⟩
      obtain ⟨path, hmeets⟩ := hy.reason e rfl
      exact ⟨path, .inr hmeets⟩
    | ok b =>
      refine ⟨?_, ?_, nofun⟩
      · rintro found ⟨⟩ key text
        rw [List.mem_append, hx.mem_iff a rfl, hy.mem_iff b rfl]
        simp only [or_and_right, exists_or]
      · rintro path e (hmeets | hmeets)
        · exact absurd hmeets (hnone path e)
        · obtain ⟨_, h⟩ := hy.fails path e hmeets
          cases h

end Collects

/-- What is hidden is not entered. -/
theorem meets_cons_iff {wanted : String} {name : FileName} {entry : Entry}
    {more : List (FileName × Entry)} {place path : List FileName}
    {outcome : Except FileError String} :
    Meets wanted place (directory ((name, entry) :: more)) path outcome ↔
      (name.isHidden = false ∧ Meets wanted (place ++ [name]) entry path outcome) ∨
        Meets wanted place (directory more) path outcome := by
  unfold Meets
  simp only [leads_directory_cons_iff]
  constructor
  · rintro ⟨_, found, rfl, ⟨rest, rfl, hleads⟩ | hleads, hvisible, hfound⟩
    · obtain ⟨hname, hrest⟩ := List.forall_mem_cons.1 hvisible
      exact .inl ⟨hname, rest, found, by simp, hleads, hrest, hfound⟩
    · exact .inr ⟨_, found, rfl, hleads, hvisible, hfound⟩
  · rintro (⟨hname, rest, found, rfl, hleads, hvisible, hfound⟩ |
      ⟨rest, found, rfl, hleads, hfound⟩)
    · exact ⟨name :: rest, found, by simp, .inl ⟨rest, rfl, hleads⟩,
        List.forall_mem_cons.2 ⟨hname, hvisible⟩, hfound⟩
    · exact ⟨rest, found, rfl, .inr hleads, hfound⟩

theorem not_meets_nil {wanted : String} {place path : List FileName}
    {outcome : Except FileError String} : ¬ Meets wanted place (directory []) path outcome := by
  rintro ⟨rest, found, -, hleads, -⟩
  obtain ⟨_, _, _, _, hmem, _⟩ := leads_directory_iff.1 hleads
  exact List.not_mem_nil hmem

theorem meets_link_iff {wanted : String} {target : Entry} {place path : List FileName}
    {outcome : Except FileError String} :
    Meets wanted place (link target) path outcome ↔ Meets wanted place target path outcome := by
  unfold Meets
  simp only [leads_link_iff]

theorem meets_closed_iff {wanted : String} {reason : FileError} {place path : List FileName}
    {outcome : Except FileError String} :
    Meets wanted place (closed reason) path outcome ↔ path = place ∧ outcome = .error reason := by
  constructor
  · rintro ⟨_, _, rfl, ⟨⟩, -, -, rfl⟩
    exact ⟨List.append_nil _, rfl⟩
  · rintro ⟨rfl, rfl⟩
    exact ⟨[], _, (List.append_nil _).symm, .closed reason, List.forall_mem_nil _, trivial, rfl⟩

/-- What is no directory is met if it has the extension. -/
theorem meets_iff_of_isDirectory {wanted : String} {name : FileName} {entry : Entry}
    {place path : List FileName} {outcome : Except FileError String}
    (h : entry.isDirectory = false) :
    Meets wanted (place ++ [name]) entry path outcome ↔
      (path = place ++ [name] ∧ outcome = entry.read) ∧
        name.extension? = some (FileName.ofString wanted) := by
  obtain ⟨content, hread, hleads⟩ := leads_iff_of_isDirectory entry h
  rw [hread]
  constructor
  · rintro ⟨rest, found, rfl, hfound, -, hwanted, rfl⟩
    obtain ⟨rfl, rfl⟩ := (hleads rest found).1 hfound
    obtain ⟨last, hlast, hextension⟩ := hwanted
    rw [List.append_nil, List.getLast?_concat] at hlast
    obtain rfl := Option.mem_some_iff.1 hlast
    exact ⟨⟨List.append_nil _, rfl⟩, hextension⟩
  · rintro ⟨⟨rfl, rfl⟩, hextension⟩
    exact ⟨[], .file content, (List.append_nil _).symm, (hleads _ _).2 ⟨rfl, rfl⟩,
      List.forall_mem_nil _, ⟨name, by simp, hextension⟩, rfl⟩

mutual
/-- The walk through a directory comes to the outcomes below it. -/
theorem collects_collect (wanted : String) {place : List FileName} (hplace : ArePathNames place) :
    ∀ entry : Entry, entry.WellNamed → entry.isDirectory = true →
    Collects (collect wanted (keyOf place) entry) (Meets wanted place entry)
  | directory entries, hnamed, _ => by
    rw [collect]
    exact collects_collectAll wanted hplace entries hnamed
  | closed reason, _, _ => by
    rw [collect]
    exact (Collects.single place (.error reason)).congr fun _ _ => meets_closed_iff
  | link target, hnamed, h => by
    cases hnamed with
    | link htarget =>
      rw [collect]
      exact (collects_collect wanted hplace target htarget h).congr fun _ _ => meets_link_iff
theorem collects_collectAll (wanted : String) {place : List FileName}
    (hplace : ArePathNames place) :
    ∀ entries : List (FileName × Entry), (directory entries).WellNamed →
    Collects (collectAll wanted (keyOf place) entries) (Meets wanted place (directory entries))
  | [], _ => by
    rw [collectAll]
    exact .nil fun _ _ => not_meets_nil
  | (name, entry) :: more, hnamed => by
    cases hnamed with
    | directory hnodup hnames hentries =>
      obtain ⟨hname, hmore⟩ := List.forall_mem_cons.1 hnames
      obtain ⟨hentry, hothers⟩ := List.forall_mem_cons.1 hentries
      have hplace' : ArePathNames (place ++ [name]) :=
        List.forall_mem_append.2 ⟨hplace, List.forall_mem_singleton.2 hname⟩
      have hrest := collects_collectAll wanted hplace more
        (.directory (List.nodup_cons.1 hnodup).2 hmore hothers)
      rw [collectAll, pathIn_keyOf hplace]
      obtain ⟨hvisit, hpass⟩ | ⟨hvisit, hvisible, hdirectory⟩ | ⟨hvisit, hvisible,
        hfile, hextension⟩ :=
        FileName.visit_cases wanted name entry.isDirectory
      · have hnone : Collects (.ok []) fun path outcome =>
            name.isHidden = false ∧ Meets wanted (place ++ [name]) entry path outcome := by
          refine .nil fun _ _ ⟨hvisible, hmeets⟩ => ?_
          obtain hhidden | ⟨hfile, hextension⟩ := hpass
          · rw [hvisible] at hhidden
            cases hhidden
          · exact hextension ((meets_iff_of_isDirectory hfile).1 hmeets).2
        rw [hvisit]
        exact (hnone.append hrest).congr fun _ _ => meets_cons_iff
      · have hbelow := collects_collect wanted hplace' entry hentry hdirectory
        rw [hvisit]
        exact (hbelow.append hrest).congr fun _ _ => meets_cons_iff.trans (by simp [hvisible])
      · have hread := Collects.single (place ++ [name]) entry.read
        rw [hvisit]
        exact (hread.append hrest).congr fun _ _ => meets_cons_iff.trans
          (by simp [hvisible, meets_iff_of_isDirectory hfile, hextension])
end

/-! ### Workspaces -/

/-- A file that a workspace lists: no name on its path is hidden, and the last has the extension. -/
def Lists (wanted : String) (root : Entry) (path : List FileName)
    (content : Except FileError ByteArray) : Prop :=
  root.Leads path (.file content) ∧ IsVisible path ∧
    ∃ name ∈ path.getLast?, name.HasEnding wanted

/-- Why there is no workspace: a listed file is no text or cannot be read, or a directory that is
not hidden cannot be listed. -/
def Spoils (wanted : String) (root : Entry) (path : List FileName) (e : FileError) : Prop :=
  (e = .invalidText ∧
    ∃ bytes, root.Lists wanted path (.ok bytes) ∧ String.fromUTF8? bytes = none) ∨
  root.Lists wanted path (.error e) ∨ (root.Leads path (.closed e) ∧ IsVisible path)

/-- Listed files whose paths are written like this are one file. -/
def WritesOnce (wanted : String) (root : Entry) (key : String) : Prop :=
  ∀ path other content content', root.Lists wanted path content → root.Lists wanted other content' →
    keyOf path = key → keyOf other = key → path = other

theorem bind_text_eq_ok_iff {content : Except FileError ByteArray} {t : String} :
    content.bind text = .ok t ↔
      ∃ bytes, content = .ok bytes ∧ String.fromUTF8? bytes = some t := by
  cases content with
  | error e => simp [Except.bind]
  | ok bytes =>
    simp only [Except.bind, text]
    cases h : String.fromUTF8? bytes <;> simp [h]

theorem bind_text_eq_error_iff {content : Except FileError ByteArray} {e : FileError} :
    content.bind text = .error e ↔ (e = .invalidText ∧
      ∃ bytes, content = .ok bytes ∧ String.fromUTF8? bytes = none) ∨ content = .error e := by
  cases content with
  | error e' => simp [Except.bind]
  | ok bytes =>
    simp only [Except.bind, text]
    cases h : String.fromUTF8? bytes <;> simp [h, eq_comm]

section Root
variable {wanted : String} {root : Entry} {path : List FileName}

theorem isWanted_file_iff {content : Except FileError ByteArray} (h : IsVisible path) :
    (Found.file content).IsWanted wanted path ↔ ∃ name ∈ path.getLast?, name.HasEnding wanted := by
  refine exists_congr fun name => and_congr_right fun hname => ?_
  exact FileName.extension?_eq_some_iff (h name (List.mem_of_getLast? hname))

/-- From the root, a walk comes to the listed files and to the directories that cannot be listed. -/
theorem meets_root_iff {outcome : Except FileError String} : Meets wanted [] root path outcome ↔
    (∃ content, root.Lists wanted path content ∧ content.bind text = outcome) ∨
      ∃ reason, (root.Leads path (.closed reason) ∧ IsVisible path) ∧ .error reason = outcome := by
  constructor
  · rintro ⟨_, found, rfl, hleads, hvisible, hwanted, rfl⟩
    cases found with
    | file content =>
      exact .inl ⟨content, ⟨hleads, hvisible, (isWanted_file_iff hvisible).1 hwanted⟩, rfl⟩
    | closed reason => exact .inr ⟨reason, ⟨hleads, hvisible⟩, rfl⟩
  · rintro (⟨content, ⟨hleads, hvisible, hending⟩, rfl⟩ | ⟨reason, ⟨hleads, hvisible⟩, rfl⟩)
    · exact ⟨path, _, rfl, hleads, hvisible, (isWanted_file_iff hvisible).2 hending, rfl⟩
    · exact ⟨path, _, rfl, hleads, hvisible, trivial, rfl⟩

theorem meets_ok_iff {t : String} : Meets wanted [] root path (.ok t) ↔
    ∃ bytes, root.Lists wanted path (.ok bytes) ∧ String.fromUTF8? bytes = some t := by
  rw [meets_root_iff]
  simp only [bind_text_eq_ok_iff]
  constructor
  · rintro (⟨_, hlists, bytes, rfl, hbytes⟩ | ⟨_, -, heq⟩)
    · exact ⟨bytes, hlists, hbytes⟩
    · cases heq
  · rintro ⟨bytes, hlists, hbytes⟩
    exact .inl ⟨_, hlists, bytes, rfl, hbytes⟩

theorem meets_error_iff {e : FileError} :
    Meets wanted [] root path (.error e) ↔ root.Spoils wanted path e := by
  rw [meets_root_iff]
  simp only [bind_text_eq_error_iff]
  constructor
  · rintro (⟨_, hlists, ⟨rfl, bytes, rfl, hbytes⟩ | rfl⟩ | ⟨_, hclosed, heq⟩)
    · exact .inl ⟨rfl, bytes, hlists, hbytes⟩
    · exact .inr (.inl hlists)
    · cases heq
      exact .inr (.inr hclosed)
  · rintro (⟨rfl, bytes, hlists, hbytes⟩ | hlists | hclosed)
    · exact .inl ⟨_, hlists, .inl ⟨rfl, bytes, rfl, hbytes⟩⟩
    · exact .inl ⟨_, hlists, .inr rfl⟩
    · exact .inr ⟨e, hclosed, rfl⟩

theorem workspace_eq_ok_iff {table : Table String} : root.workspace wanted = .ok table ↔
    ∃ found, root.collect wanted "" = .ok found ∧ Table.ofList found = table := by
  rw [workspace]
  cases root.collect wanted "" <;> simp [Except.map]

theorem workspace_eq_error_iff {e : FileError} :
    root.workspace wanted = .error e ↔ root.collect wanted "" = .error e := by
  rw [workspace]
  cases root.collect wanted "" <;> simp [Except.map]

/-- Listed files are told apart by their keys if their names are the encodings of texts. -/
theorem writesOnce_of_texts (hnamed : root.WellNamed)
    (h : ∀ path content, root.Lists wanted path content → ∀ name ∈ path, name.text?.isSome)
    (key : String) : root.WritesOnce wanted key := by
  intro path other content content' hlists hlists' hkey hkey'
  exact keyOf_injective (hnamed.arePathNames hlists.1) (hnamed.arePathNames hlists'.1)
    (h _ _ hlists) (h _ _ hlists') (hkey.trans hkey'.symm)

section Workspace
variable (hroot : root.isDirectory = true) (hnamed : root.WellNamed)
include hroot hnamed

theorem collects_root : Collects (root.collect wanted "") (Meets wanted [] root) :=
  collects_collect wanted (List.forall_mem_nil _) root hnamed hroot

theorem get?_workspace_iff {table : Table String} (h : root.workspace wanted = .ok table)
    {key : String} (honce : root.WritesOnce wanted key) (t : String) :
    table.get? key = some t ↔ ∃ path bytes, root.Lists wanted path (.ok bytes) ∧ keyOf path = key ∧
      String.fromUTF8? bytes = some t := by
  obtain ⟨found, hfound, rfl⟩ := workspace_eq_ok_iff.1 h
  -- The last entry of a key is the one that stays. All entries of this key come from one file.
  have hmem : ∀ t, (key, t) ∈ found ↔ ∃ path bytes, root.Lists wanted path (.ok bytes) ∧
      keyOf path = key ∧ String.fromUTF8? bytes = some t := by
    intro t
    rw [(collects_root hroot hnamed).mem_iff found hfound]
    constructor
    · rintro ⟨path, hmeets, rfl⟩
      obtain ⟨bytes, hlists, hbytes⟩ := meets_ok_iff.1 hmeets
      exact ⟨path, bytes, hlists, rfl, hbytes⟩
    · rintro ⟨path, bytes, hlists, rfl, hbytes⟩
      exact ⟨path, meets_ok_iff.2 ⟨bytes, hlists, hbytes⟩, rfl⟩
  rw [← hmem]
  refine ⟨Table.mem_of_get?_ofList, fun ht => Table.get?_ofList_of_mem ht fun other hother => ?_⟩
  obtain ⟨path, bytes, hlists, hkey, hbytes⟩ := (hmem t).1 ht
  obtain ⟨path', bytes', hlists', hkey', hbytes'⟩ := (hmem other).1 hother
  obtain rfl := honce _ _ _ _ hlists hlists' hkey hkey'
  cases hnamed.found_eq hlists.1 hlists'.1
  exact Option.some.inj (hbytes'.symm.trans hbytes)

theorem workspace_fails_iff : (∃ e, root.workspace wanted = .error e) ↔
    ∃ path e, root.Spoils wanted path e := by
  simp only [workspace_eq_error_iff, ← meets_error_iff]
  constructor
  · rintro ⟨e, h⟩
    obtain ⟨path, hmeets⟩ := (collects_root hroot hnamed).reason e h
    exact ⟨path, e, hmeets⟩
  · rintro ⟨path, e, hmeets⟩
    exact (collects_root hroot hnamed).fails path e hmeets

theorem exists_spoils_of_workspace {e : FileError} (h : root.workspace wanted = .error e) :
    ∃ path, root.Spoils wanted path e := by
  obtain ⟨path, hmeets⟩ := (collects_root hroot hnamed).reason e (workspace_eq_error_iff.1 h)
  exact ⟨path, meets_error_iff.1 hmeets⟩

end Workspace

section Reordered
variable {other : Entry} (h : root.Reordered other)
include h

theorem Reordered.lists_iff (content : Except FileError ByteArray) :
    root.Lists wanted path content ↔ other.Lists wanted path content :=
  and_congr_left' (h.leads_iff path (.file content))

theorem Reordered.spoils_iff (e : FileError) :
    root.Spoils wanted path e ↔ other.Spoils wanted path e := by
  unfold Spoils
  simp only [h.lists_iff, h.leads_iff]

theorem Reordered.writesOnce_iff (key : String) :
    root.WritesOnce wanted key ↔ other.WritesOnce wanted key := by
  unfold WritesOnce
  simp only [h.lists_iff]

theorem Reordered.workspace_fails_iff (hroot : root.isDirectory = true) (hnamed : root.WellNamed) :
    (∃ e, other.workspace wanted = .error e) ↔ ∃ e, root.workspace wanted = .error e := by
  rw [Entry.workspace_fails_iff hroot hnamed,
    Entry.workspace_fails_iff (h.isDirectory_eq.trans hroot) (h.wellNamed hnamed)]
  simp only [h.spoils_iff]

/-- The order of listings shows in no key that one file has. -/
theorem Reordered.get?_workspace (hroot : root.isDirectory = true) (hnamed : root.WellNamed)
    {table others : Table String} (htable : root.workspace wanted = .ok table)
    (hothers : other.workspace wanted = .ok others) {key : String}
    (honce : root.WritesOnce wanted key) : others.get? key = table.get? key := by
  have hroot' := h.isDirectory_eq.trans hroot
  have honce' := (h.writesOnce_iff key).1 honce
  apply Option.ext
  intro t
  rw [get?_workspace_iff hroot hnamed htable honce,
    get?_workspace_iff hroot' (h.wellNamed hnamed) hothers honce']
  simp only [h.lists_iff]

theorem Reordered.workspace_eq (hroot : root.isDirectory = true) (hnamed : root.WellNamed)
    (honce : ∀ key, root.WritesOnce wanted key) :
    (other.workspace wanted).toOption = (root.workspace wanted).toOption := by
  have hfails : (∃ e, other.workspace wanted = .error e) ↔ ∃ e, root.workspace wanted = .error e :=
    h.workspace_fails_iff hroot hnamed
  cases htable : root.workspace wanted with
  | error e =>
    obtain ⟨e', he'⟩ := hfails.2 ⟨e, htable⟩
    rw [he']
    rfl
  | ok table =>
    cases hothers : other.workspace wanted with
    | error e' =>
      obtain ⟨e, he⟩ := hfails.1 ⟨e', hothers⟩
      rw [htable] at he
      cases he
    | ok others =>
      refine congrArg some (Table.ext_get? fun key => ?_)
      exact h.get?_workspace hroot hnamed htable hothers (honce key)

end Reordered

end Root

/-- The table of a workspace holds the listed files of its tree, each under its path, wherever one
file alone is written so; and there is no table exactly if a listed file cannot be read as a text or
a visible directory cannot be listed. The order in which directories list their entries does not
matter. -/
theorem workspace_is_listed_files (wanted : String) (root : Entry)
    (hroot : root.isDirectory = true) (hnamed : root.WellNamed) :
    (∀ table, root.workspace wanted = .ok table → ∀ key, root.WritesOnce wanted key → ∀ t,
      (table.get? key = some t ↔ ∃ path bytes, root.Lists wanted path (.ok bytes) ∧
        keyOf path = key ∧ String.fromUTF8? bytes = some t)) ∧
    ((∀ path content, root.Lists wanted path content → ∀ name ∈ path, name.text?.isSome) →
      ∀ key, root.WritesOnce wanted key) ∧
    (∀ other, root.Reordered other →
      ((∃ e, other.workspace wanted = .error e) ↔ ∃ e, root.workspace wanted = .error e) ∧
      ((∀ key, root.WritesOnce wanted key) →
        (other.workspace wanted).toOption = (root.workspace wanted).toOption)) ∧
    ((∃ e, root.workspace wanted = .error e) ↔ ∃ path e, root.Spoils wanted path e) ∧
    ∀ e, root.workspace wanted = .error e → ∃ path, root.Spoils wanted path e := by
  exact ⟨fun table h key honce => get?_workspace_iff hroot hnamed h honce,
    fun h => writesOnce_of_texts hnamed h,
    fun other hother => ⟨hother.workspace_fails_iff hroot hnamed, hother.workspace_eq hroot hnamed⟩,
    workspace_fails_iff hroot hnamed, fun e => exists_spoils_of_workspace hroot hnamed⟩

/-- A directory with the name of a file is entered, and one behind a link; files that are hidden or
have another extension do not matter. -/
theorem workspace_is_listed_files_of_nested :
    let unreadable : Entry := .file (.ok ⟨#[255]⟩)
    let root : Entry := .directory
      [(.ofString ".git", .directory [(.ofString "a.scene", unreadable)]),
        (.ofString "old.scene", .directory
          [(.ofString "notes.txt", unreadable), (.ofString "b.scene", .file (.ok ⟨#[104, 105]⟩))]),
        (⟨[255]⟩, .link (.directory [(.ofString "c.scene", .file (.ok ⟨#[]⟩))]))]
    (root.isDirectory = true ∧ root.WellNamed) ∧ ∀ other, root.Reordered other →
      ∃ table, other.workspace "scene" = .ok table ∧
        table.toList = [("old.scene/b.scene", "hi"), ("\uFFFD/c.scene", "")] := by
  intro unreadable root
  have hnamed : root.WellNamed := by
    refine .directory (by decide) (by unfold ArePathNames; decide) ?_
    refine List.forall_mem_cons.2 ⟨?_, List.forall_mem_cons.2 ⟨?_, List.forall_mem_singleton.2 ?_⟩⟩
    · exact .directory (by decide) (by unfold ArePathNames; decide)
        (List.forall_mem_singleton.2 (.file _))
    · exact .directory (by decide) (by unfold ArePathNames; decide)
        (List.forall_mem_cons.2 ⟨.file _, List.forall_mem_singleton.2 (.file _)⟩)
    · exact .link (.directory (by decide) (by unfold ArePathNames; decide)
        (List.forall_mem_singleton.2 (.file _)))
  have hlists : ∀ path content, root.Lists "scene" path content →
      path = [.ofString "old.scene", .ofString "b.scene"] ∨
        path = [⟨[255]⟩, .ofString "c.scene"] := by
    rintro path content ⟨hleads, hvisible, last, hlast, hending⟩
    obtain ⟨first, entry, rest, rfl, hmem, hleads⟩ := leads_directory_iff.1 hleads
    simp only [List.mem_cons, List.not_mem_nil, or_false, Prod.mk.injEq] at hmem
    obtain ⟨rfl, rfl⟩ | ⟨rfl, rfl⟩ | ⟨rfl, rfl⟩ := hmem
    · exact absurd (hvisible _ List.mem_cons_self) (by decide +kernel)
    · obtain ⟨name, entry, rest, rfl, hmem, hleads⟩ := leads_directory_iff.1 hleads
      simp only [List.mem_cons, List.not_mem_nil, or_false, Prod.mk.injEq] at hmem
      obtain ⟨rfl, rfl⟩ | ⟨rfl, rfl⟩ := hmem
      · obtain ⟨rfl, -⟩ := leads_file_iff.1 hleads
        obtain rfl := Option.some.inj hlast
        have hvisible : (FileName.ofString "notes.txt").isHidden = false := by decide +kernel
        exact absurd ((FileName.extension?_eq_some_iff hvisible).2 hending) (by decide +kernel)
      · obtain ⟨rfl, -⟩ := leads_file_iff.1 hleads
        exact .inl rfl
    · obtain ⟨name, entry, rest, rfl, hmem, hleads⟩ :=
        leads_directory_iff.1 (leads_link_iff.1 hleads)
      simp only [List.mem_cons, List.not_mem_nil, or_false, Prod.mk.injEq] at hmem
      obtain ⟨rfl, rfl⟩ := hmem
      obtain ⟨rfl, -⟩ := leads_file_iff.1 hleads
      exact .inr rfl
  have honce : ∀ key, root.WritesOnce "scene" key := by
    intro key path other content content' h h' hkey hkey'
    obtain rfl | rfl := hlists path content h <;> obtain rfl | rfl := hlists other content' h'
    · rfl
    · exact absurd (hkey.trans hkey'.symm) (by decide +kernel)
    · exact absurd (hkey.trans hkey'.symm) (by decide +kernel)
    · rfl
  obtain ⟨-, -, hsame, -, -⟩ := workspace_is_listed_files "scene" root rfl hnamed
  refine ⟨⟨rfl, hnamed⟩, fun other hother => ?_⟩
  have htables : (other.workspace "scene").toOption.map Table.toList =
      some [("old.scene/b.scene", "hi"), ("\uFFFD/c.scene", "")] := by
    rw [(hsame other hother).2 honce]
    decide +kernel
  cases h : other.workspace "scene" with
  | error e =>
    rw [h] at htables
    cases htables
  | ok table =>
    rw [h] at htables
    exact ⟨table, rfl, Option.some.inj htables⟩

/-- A path of more than 4095 bytes or a link that leads to nothing leaves no table, though every
file is a text; of two files whose names are written alike the later is in the table; and a name
that begins with a dot is entered if it is no text. -/
theorem workspace_of_long_paths_and_broken_names :
    let files : Entry := .directory
      [(.ofString "main.scene", .file (.ok "console.print(1)".toUTF8)),
        (.ofString "a_module_with_a_name_of_some_length.scene", .file (.ok "size = 2".toUTF8))]
    let dangling : Entry := .directory [(.ofString "x.scene", .link (.missing .notFound))]
    let dotted : Entry :=
      .directory [(⟨[46, 255]⟩, .directory [(.ofString "x.scene", .file (.ok ⟨#[]⟩))])]
    let one : FileName × Entry :=
      (⟨255 :: (FileName.ofString ".scene").bytes⟩, .file (.ok "x = 1".toUTF8))
    let two : FileName × Entry :=
      (⟨254 :: (FileName.ofString ".scene").bytes⟩, .file (.ok "x = 2".toUTF8))
    (files.workspace "scene").toOption.map Table.keys =
        some ["a_module_with_a_name_of_some_length.scene", "main.scene"] ∧
      (files.seen 4081).workspace "scene" = .error .nameTooLong ∧
      dangling.workspace "scene" = .error .notFound ∧
      (dotted.workspace "scene").toOption.map Table.keys = some [".\uFFFD/x.scene"] ∧
      ((directory [one, two]).workspace "scene").toOption.map Table.toList =
        some [("\uFFFD.scene", "x = 2")] ∧
      ((directory [two, one]).workspace "scene").toOption.map Table.toList =
        some [("\uFFFD.scene", "x = 1")] := by
  refine ⟨?_, ?_, ?_, ?_, ?_, ?_⟩
  · decide +kernel
  · rw [workspace_eq_error_iff]
    rfl
  · rw [workspace_eq_error_iff]
    rfl
  · decide +kernel
  · decide +kernel
  · decide +kernel

end Entry
end SceneScript
