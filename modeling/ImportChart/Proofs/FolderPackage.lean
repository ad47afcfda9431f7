import ImportChart.Module.Load
import ImportChart.Proofs.ModuleFolders

/-!
# The package of a folder

The files of a folder are read one after the other, and what they have said so
far is summed up in at most one name and one list of imports (`Sums`). A file
that is set aside adds nothing; any other file adds its imports, or ends the
load if it names another package. So a folder that is loaded has a package
exactly when some source counts, and that package is described by the sources
that count, in whatever order they were read (`describes_of_loadFolder`).
-/

namespace ImportChart.Module

open FileTree Source

/-! ## Computations that can fail -/

theorem bind_eq_ok_iff {ε α β : Type} {x : Except ε α} {f : α → Except ε β}
    {b : β} : x >>= f = .ok b ↔ ∃ a, x = .ok a ∧ f a = .ok b := by
  cases x with
  | error e => simp [bind, Except.bind]
  | ok a => simp [bind, Except.bind]

theorem bind_eq_error_iff {ε α β : Type} {x : Except ε α} {f : α → Except ε β}
    {e : ε} :
    x >>= f = .error e ↔ x = .error e ∨ ∃ a, x = .ok a ∧ f a = .error e := by
  cases x with
  | error e' => simp [bind, Except.bind]
  | ok a => simp [bind, Except.bind]

/-- A list that is filtered and mapped by a computation: every run succeeds, and
the results that are there are those of the runs, in order. -/
theorem filterMapM_eq_ok {ε α β : Type} {f : α → Except ε (Option β)} :
    ∀ {as : List α} {bs : List β}, as.filterMapM f = .ok bs →
      ∃ results : List (Option β), as.map f = results.map .ok
        ∧ bs = results.filterMap id
  | [], bs, h => by
      cases h
      exact ⟨[], rfl, rfl⟩
  | a :: as, bs, h => by
      rw [List.filterMapM_cons, bind_eq_ok_iff] at h
      obtain ⟨result, ha, hrest⟩ := h
      cases result with
      | none =>
          obtain ⟨results, has, rfl⟩ := filterMapM_eq_ok hrest
          refine ⟨none :: results, ?_, rfl⟩
          rw [List.map_cons, ha, has, List.map_cons]
      | some b =>
          obtain ⟨bs', hbs, heq⟩ := bind_eq_ok_iff.mp hrest
          cases heq
          obtain ⟨results, has, rfl⟩ := filterMapM_eq_ok hbs
          refine ⟨some b :: results, ?_, rfl⟩
          rw [List.map_cons, ha, has, List.map_cons]

/-- If every run succeeds, those on fewer elements do too, and their results are
the ones that come from what is kept. -/
theorem filterMapM_filter {ε α β : Type} {f : α → Except ε (Option β)}
    {keep : α → Bool} {kept : β → Bool} :
    ∀ {as : List α} {bs : List β}, as.filterMapM f = .ok bs →
      (∀ a ∈ as, ∀ b, f a = .ok (some b) → kept b = keep a) →
      (as.filter keep).filterMapM f = .ok (bs.filter kept)
  | [], bs, h, _ => by
      cases h
      rfl
  | a :: as, bs, h, hkept => by
      rw [List.filterMapM_cons, bind_eq_ok_iff] at h
      obtain ⟨result, ha, hrest⟩ := h
      have hbelow : ∀ a' ∈ as, ∀ b, f a' = .ok (some b) → kept b = keep a' :=
        fun a' ha' => hkept a' (List.mem_cons_of_mem a ha')
      cases result with
      | none =>
          have hfiltered := filterMapM_filter hrest hbelow
          by_cases hkeep : keep a
          · rw [List.filter_cons_of_pos hkeep, List.filterMapM_cons]
            exact bind_eq_ok_iff.mpr ⟨none, ha, hfiltered⟩
          · rw [List.filter_cons_of_neg hkeep]
            exact hfiltered
      | some b =>
          obtain ⟨bs', hbs, heq⟩ := bind_eq_ok_iff.mp hrest
          cases heq
          have hfiltered := filterMapM_filter hbs hbelow
          have hb := hkept a (List.mem_cons_self ..) b ha
          by_cases hkeep : keep a
          · rw [List.filter_cons_of_pos hkeep, List.filterMapM_cons,
              List.filter_cons_of_pos (hb.trans hkeep)]
            exact bind_eq_ok_iff.mpr
              ⟨some b, ha, bind_eq_ok_iff.mpr ⟨_, hfiltered, rfl⟩⟩
          · rw [List.filter_cons_of_neg hkeep,
              List.filter_cons_of_neg (by rwa [hb])]
            exact hfiltered

/-- Runs that all succeed have the results in the list, and no others. -/
theorem mem_of_map_eq_map_ok {ε α β : Type} {f : α → Except ε β} {as : List α}
    {bs : List β} (h : as.map f = bs.map .ok) {b : β} :
    b ∈ bs ↔ ∃ a ∈ as, f a = .ok b := by
  have hmem : b ∈ bs ↔ Except.ok b ∈ as.map f := by
    rw [h, List.mem_map]
    constructor
    · exact fun hb => ⟨b, hb, rfl⟩
    · rintro ⟨b', hb, heq⟩
      cases heq
      exact hb
  rw [hmem, List.mem_map]

theorem exists_of_map_eq_map_ok {ε α β : Type} {f : α → Except ε β}
    {as : List α} {bs : List β} (h : as.map f = bs.map .ok) {a : α}
    (ha : a ∈ as) : ∃ b ∈ bs, f a = .ok b := by
  have hmem := List.mem_map_of_mem ha (f := f)
  rw [h] at hmem
  obtain ⟨b, hb, heq⟩ := List.mem_map.mp hmem
  exact ⟨b, hb, heq.symm⟩

theorem pairwise_filterMap_of_map_eq {ε α β : Type}
    {f : α → Except ε (Option β)} {as : List α} {results : List (Option β)}
    {R : β → β → Prop} (h : as.map f = results.map .ok)
    (hR : as.Pairwise fun a a' =>
      ∀ b b', f a = .ok (some b) → f a' = .ok (some b') → R b b') :
    (results.filterMap id).Pairwise R := by
  have hruns : (as.map f).Pairwise fun run run' =>
      ∀ b b', run = .ok (some b) → run' = .ok (some b') → R b b' :=
    List.pairwise_map.mpr hR
  rw [h, List.pairwise_map] at hruns
  refine List.pairwise_filterMap.mpr (hruns.imp ?_)
  rintro _ _ hrun b rfl b' rfl
  exact hrun b b' rfl rfl

/-! ## Files at locations -/

/-- The entry that a name has in the folder at a location is or leads to a file
with this text. -/
def HasText (tree : FileTree) (links : Nat) (location : List String)
    (name text : String) : Prop :=
  ∃ place content, tree.walk .reading links location [name] = .ok (.file place)
    ∧ tree.top.at? place = some (.file content)
    ∧ String.fromUTF8? content = some text

/-- A header that counts for the package of a folder: that of a source which is
not set aside. -/
inductive Counts (tree : FileTree) (links : Nat) (location : List String)
    (entries : List (String × FileNode)) (header : FileHeader) : Prop
  | mk {name text : String} :
      IsSource tree links location entries name →
      HasText tree links location name text →
      FileHeader.ofText? text = some header →
      header.isSetAside = false → Counts tree links location entries header

/-- What the package of a folder is, by the headers that count. -/
structure Describes (tree : FileTree) (links : Nat) (location : List String)
    (entries : List (String × FileNode)) (package : Package) : Prop where
  counts : ∃ header, Counts tree links location entries header
  agree : ∀ header header', Counts tree links location entries header →
    Counts tree links location entries header' →
    header.package = header'.package
  entryPoint : ∀ header, Counts tree links location entries header →
    (package.isEntryPoint = true ↔ header.package = "main")
  imports : ∀ path, path ∈ package.imports ↔
    ∃ header, Counts tree links location entries header ∧ path ∈ header.imports

section

variable {tree : FileTree} {links : Nat} {path : String}
  {location : List String}

theorem readText_join_iff {name text : String}
    (h : Leads tree path links location) (hname : '/' ∉ name.toList) :
    tree.readText (join path name) = .ok text
      ↔ HasText tree links location name text := by
  unfold readText readBytes HasText
  rw [h.place_join hname]
  rcases tree.walk .reading links location [name] with
    cause | place | place | place
  · simp
  · simp
  · rcases hfound : tree.top.at? place with _ | content | entries | target
    · simp [hfound]
    · cases htext : String.fromUTF8? content with
      | none => simp [hfound, htext]
      | some text' => simp [hfound, htext]
    · simp [hfound]
    · simp [hfound]
  · simp

theorem readHeader_join_iff {name : String} {header : FileHeader}
    (h : Leads tree path links location) (hname : '/' ∉ name.toList) :
    readHeader tree (join path name) = .ok header
      ↔ ∃ text, HasText tree links location name text
        ∧ FileHeader.ofText? text = some header := by
  simp only [← readText_join_iff h hname, readHeader]
  cases tree.readText (join path name) with
  | error cause => simp
  | ok text =>
      cases hheader : FileHeader.ofText? text with
      | none => simp [hheader]
      | some header' => simp [hheader]

end

/-! ## Headers summed up -/

/-- What a folder's files have said, if these are the headers that counted so
far. -/
inductive Sums : List FileHeader → Option Declared → Prop
  | none : Sums [] none
  | some {headers : List FileHeader} {name : String} : headers ≠ [] →
      (∀ header ∈ headers, header.package = name) →
      Sums headers (some ⟨name, headers.flatMap FileHeader.imports⟩)

/-- The headers of a list that count. -/
def counted (headers : List FileHeader) : List FileHeader :=
  headers.filter (! ·.isSetAside)

theorem sums_declare {folder : String} {headers : List FileHeader}
    {declared declared' : Option Declared} {header : FileHeader}
    (h : Sums headers declared)
    (hread : declare folder declared header = .ok declared') :
    Sums (headers ++ counted [header]) declared' := by
  unfold declare at hread
  split at hread
  · next haside =>
      cases hread
      rwa [counted, List.filter_cons, if_neg (by simp [haside]),
        List.filter_nil, List.append_nil]
  · next haside =>
      have hkept : counted [header] = [header] := by simp [counted, haside]
      rw [hkept]
      cases h with
      | none =>
          cases hread
          have himports :
              header.imports = [header].flatMap FileHeader.imports := by simp
          rw [himports]
          exact Sums.some (List.cons_ne_nil header []) (by simp)
      | @some _ name hne hall =>
          simp only at hread
          split at hread
          · next hname =>
              cases hread
              have himports :
                  headers.flatMap FileHeader.imports ++ header.imports
                    = (headers ++ [header]).flatMap FileHeader.imports := by
                simp
              rw [himports]
              refine Sums.some (by simp) fun other hother => ?_
              rcases List.mem_append.mp hother with hmem | hmem
              · exact hall other hmem
              · rw [List.mem_singleton.mp hmem, beq_iff_eq.mp hname]
          · cases hread

/-- The files of a folder that is loaded all have headers, and the folder has
said what the headers that count say. -/
theorem sums_foldlM {tree : FileTree} {path : String} :
    ∀ {files : List String} {headers : List FileHeader}
      {declared declared' : Option Declared}, Sums headers declared →
    files.foldlM (fun declared file => do
      declare path declared (← readHeader tree (join path file))) declared
        = .ok declared' →
    ∃ more, files.map (fun file => readHeader tree (join path file))
        = more.map .ok
      ∧ Sums (headers ++ counted more) declared'
  | [], headers, _, _, h, hread => by
      cases hread
      refine ⟨[], rfl, ?_⟩
      rwa [counted, List.filter_nil, List.append_nil]
  | file :: files, headers, declared, declared', h, hread => by
      rw [List.foldlM_cons, bind_eq_ok_iff] at hread
      obtain ⟨between, hfile, hrest⟩ := hread
      obtain ⟨header, hheader, hdeclare⟩ := bind_eq_ok_iff.mp hfile
      obtain ⟨more, hmore, hsums⟩ := sums_foldlM (sums_declare h hdeclare) hrest
      have hheaders :
          (file :: files).map (fun file => readHeader tree (join path file))
            = (header :: more).map .ok := by
        rw [List.map_cons, hheader, hmore, List.map_cons]
      refine ⟨header :: more, hheaders, ?_⟩
      have hsplit :
          counted (header :: more) = counted [header] ++ counted more := by
        rw [counted, ← List.singleton_append, List.filter_append]
        rfl
      rwa [hsplit, ← List.append_assoc]

/-! ## From headers to the package -/

theorem mem_counted {header : FileHeader} {headers : List FileHeader} :
    header ∈ counted headers
      ↔ header ∈ headers ∧ header.isSetAside = false := by
  rw [counted, List.mem_filter, Bool.not_eq_true']

theorem path_of_loadFolder {tree : FileTree} {modulePath : String}
    {folder : SourceFolder} {package : Package}
    (h : loadFolder tree modulePath folder = .ok (some package)) :
    package.path = folder.importPath modulePath := by
  obtain ⟨declared, -, hresult⟩ := bind_eq_ok_iff.mp h
  obtain ⟨_, -, rfl⟩ := Option.map_eq_some_iff.mp (Except.ok.inj hresult)
  rfl

/-- What a load makes of a folder: a package, described by the headers that
count, if there are any. -/
theorem describes_of_loadFolder {tree : FileTree} {links : Nat}
    {path modulePath : String} {location names : List String}
    {entries : List (String × FileNode)} {result : Option Package}
    (hleads : Leads tree path links location)
    (hat : tree.top.at? location = some (.folder entries))
    (hwell : FileNode.WellFormed (.folder entries))
    (h : loadFolder tree modulePath ⟨names, path, sourcesOf tree path entries⟩
      = .ok result) :
    (∀ package, result = some package →
      Describes tree links location entries package)
      ∧ (result = none →
        ∀ header, ¬Counts tree links location entries header) := by
  obtain ⟨declared, hfold, hresult⟩ := bind_eq_ok_iff.mp h
  cases hresult
  obtain ⟨headers, hheaders, hsums⟩ := sums_foldlM Sums.none hfold
  rw [List.nil_append] at hsums
  have hcounts : ∀ header, header ∈ counted headers
      ↔ Counts tree links location entries header := by
    intro header
    rw [mem_counted, mem_of_map_eq_map_ok hheaders]
    constructor
    · rintro ⟨⟨name, hname, hread⟩, haside⟩
      have hsource := (mem_sourcesOf hleads hat hwell).mp hname
      obtain ⟨entry, hentry, rfl⟩ := List.mem_map.mp hsource.listed
      obtain ⟨text, htext, hheader⟩ :=
        (readHeader_join_iff hleads (hwell.isEntryName hentry).2.2.2).mp hread
      exact Counts.mk hsource htext hheader haside
    · rintro ⟨hsource, htext, hheader, haside⟩
      obtain ⟨entry, hentry, rfl⟩ := List.mem_map.mp hsource.listed
      refine ⟨⟨entry.1, (mem_sourcesOf hleads hat hwell).mpr hsource, ?_⟩,
        haside⟩
      exact (readHeader_join_iff hleads (hwell.isEntryName hentry).2.2.2).mpr
        ⟨_, htext, hheader⟩
  generalize counted headers = kept at hsums hcounts
  cases hsums with
  | none =>
      refine ⟨?_, ?_⟩
      · intro package hpackage
        cases hpackage
      · intro _ header hheader
        exact List.not_mem_nil ((hcounts header).mpr hheader)
  | @some _ name hne hall =>
      have hname : ∀ header, Counts tree links location entries header →
          header.package = name :=
        fun header hheader => hall header ((hcounts header).mpr hheader)
      refine ⟨?_, fun hnone => absurd hnone (Option.some_ne_none _)⟩
      intro package hpackage
      cases hpackage
      refine ⟨?_, ?_, ?_, ?_⟩
      · obtain ⟨header, hheader⟩ := List.exists_mem_of_ne_nil kept hne
        exact ⟨header, (hcounts header).mp hheader⟩
      · intro header header' hheader hheader'
        rw [hname header hheader, hname header' hheader']
      · intro header hheader
        rw [hname header hheader]
        exact beq_iff_eq
      · intro imported
        show imported ∈ NameSet.ofList (kept.flatMap FileHeader.imports) ↔ _
        simp only [NameSet.mem_ofList, List.mem_flatMap, hcounts]

end ImportChart.Module
