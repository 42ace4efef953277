import FpgaDatabase.Firmware.Fat32

namespace FpgaDatabase.Firmware.AliasOrder

open CString SdDriver SdSearch FatVolume FatRead Fat32 Library.Linked

variable {image : ℕ → Sector} {b : FatBPB} {name : List UInt8} {w : Wanted} {start m c : ℕ}
  {secs : List ℕ} {slots : List Slot} {f g : Found}

/-- The arguments with which `fat_scan_dir` is called for a directory, and its sectors:
the root region of FAT16, or a chain of clusters, as for a FAT32 root or for TABLES. -/
inductive Directory (b : FatBPB) (image : ℕ → Sector) : ℕ → ℕ → ℕ → List ℕ → Prop
  | region (start m : ℕ) :
      Directory b image start m 0 ((List.range m).map (fun s ↦ u32 (start + s)))
  | chain {c : ℕ} {cs : List ℕ} (hc : 2 ≤ c)
      (h : Chain (nextOf b image) (fatClusValid b) c cs) :
      Directory b image 0 0 c (cs.flatMap (clusterSectors b))

theorem Directory.yields (h : Directory b image start m c secs) (w : Wanted) :
    Yields b image w start m c (lookup w (dirSlots image secs)) := by
  rw [lookup, ← scan_entries]
  cases h with
  | region start m => exact yields_region b image w start m Nat.two_pos
  | chain hc h => exact yields_chain hc h

theorem yields_unique (hf : Yields b image w start m c f) (hg : Yields b image w start m c g) :
    f = g := by
  obtain ⟨n, l, hf⟩ := hf .root []
  obtain ⟨n', l', hg⟩ := hg .root []
  have h₁ := fatScanDir_mono hf (le_max_left n n')
  have h₂ := fatScanDir_mono hg (le_max_right n n')
  exact congrArg Prod.fst (Option.some.inj (h₁.symm.trans h₂))

/-- Of the names a file may have, the search takes the one that comes first. -/
theorem lookup_either (name : List UInt8) (slots : List Slot) :
    lookup (wantedFile name) slots = ((files slots).find? (fun e ↦
      nameOf e = to83 name || nameOf e = to83AliasGuess name)).elim notFound foundAt := by
  have hp : (entries slots).find? (asked (wantedFile name)) = (files slots).find? (fun e ↦
      decide (nameOf e = to83 name) || decide (nameOf e = to83AliasGuess name)) := by
    rw [files, List.find?_filter]
    apply List.find?_congr
    intro s _
    by_cases hn : nameOf s = to83 name
    · cases hd : isDir s <;> simp [asked, wantedFile, hd, hn]
    · cases hd : isDir s <;>
        simp [asked, wantedFile, hd, hn, eq_comm (a := to83AliasGuess name)]
  rw [lookup, hp]

/-- Every entry that bears the guessed alias stands behind one that bears the name
itself. -/
def AliasBehind (name : List UInt8) (slots : List Slot) : Prop :=
  ∀ before e after, files slots = before ++ e :: after → nameOf e = to83AliasGuess name →
    to83AliasGuess name ≠ to83 name → ∃ e' ∈ before, nameOf e' = to83 name

theorem first_exact_iff {s : Slot} (hs : (files slots).find? (fun e ↦
      nameOf e = to83 name || nameOf e = to83AliasGuess name) = some s) :
    nameOf s = to83 name ↔ AliasBehind name slots := by
  obtain ⟨hasked, before, after, hsplit, hnone⟩ := List.find?_eq_some_iff_append.mp hs
  constructor
  · intro hname before' e after' hsplit' halias hne
    -- the first hit bears the name, so the alias can only stand behind it
    rcases List.append_eq_append_iff.mp (hsplit.symm.trans hsplit') with
      ⟨mid, hb, ha⟩ | ⟨mid, hb, ha⟩
    · cases mid with
      | nil =>
        rw [List.nil_append, List.cons.injEq] at ha
        rw [← ha.1, hname] at halias
        exact absurd halias.symm hne
      | cons d mid =>
        rw [List.cons_append, List.cons.injEq] at ha
        exact ⟨d, by simp [hb], ha.1 ▸ hname⟩
    · cases mid with
      | nil =>
        rw [List.nil_append, List.cons.injEq] at ha
        rw [ha.1, hname] at halias
        exact absurd halias.symm hne
      | cons d mid =>
        rw [List.cons_append, List.cons.injEq] at ha
        have hbefore := hnone e (by simp [hb, ha.1])
        simp [halias] at hbefore
  · intro hbehind
    by_contra hname
    have halias : nameOf s = to83AliasGuess name := by simpa [hname] using hasked
    obtain ⟨e, he, hn⟩ := hbehind before s after hsplit halias (halias ▸ hname)
    have hbefore := hnone e he
    simp [hn] at hbefore

/-- In a directory that holds the file under its own name, the search selects it
exactly when no entry with the guessed alias stands before it. -/
theorem exact_name_wins_iff (b : FatBPB) (image : ℕ → Sector) (start m c : ℕ) (secs : List ℕ)
    (hdir : Directory b image start m c secs) (name : List UInt8)
    (hex : ∃ e ∈ files (dirSlots image secs), nameOf e = to83 name) :
    (∃ e ∈ files (dirSlots image secs), nameOf e = to83 name ∧
      Yields b image (wantedFile name) start m c (foundAt e)) ↔
    AliasBehind name (dirSlots image secs) := by
  obtain ⟨e₀, he₀, hn₀⟩ := hex
  obtain ⟨s, hs⟩ : ∃ s, (files (dirSlots image secs)).find? (fun e ↦
      nameOf e = to83 name || nameOf e = to83AliasGuess name) = some s := by
    rw [← Option.isSome_iff_exists, List.find?_isSome]
    exact ⟨e₀, he₀, by simp [hn₀]⟩
  have hfiles : s ∈ files (dirSlots image secs) := List.mem_of_find?_eq_some hs
  have hyields := hdir.yields (wantedFile name)
  rw [lookup_either, hs, Option.elim_some] at hyields
  rw [← first_exact_iff hs]
  constructor
  · rintro ⟨e, he, hname, hy⟩
    have hplace : e.place = s.place :=
      Option.some.inj (congrArg Found.place (yields_unique hy hyields))
    have hentry : e.entry = s.entry := by
      rw [entry_of_mem (mem_of_entries (List.mem_of_mem_filter he)),
        entry_of_mem (mem_of_entries (List.mem_of_mem_filter hfiles)), hplace]
    rw [nameOf, ← hentry]
    exact hname
  · intro hname
    exact ⟨s, hfiles, hname, hyields⟩

section Examples

def fileEntry (nm : List UInt8) (cluster size : UInt8) : List UInt8 :=
  nm ++ [0x20] ++ List.replicate 14 0 ++ [cluster, 0, size, 0, 0, 0]

def twoFiles (first second : List UInt8) : ℕ → Sector := fun sec k ↦
  if sec = 2 then (fileEntry first 2 5 ++ fileEntry second 3 7).getD k 0 else 0

def alunos : List UInt8 := ascii "alunos.tbl"

/-- The alias stands first, so the search takes the file of the longer name. -/
theorem alias_first_taken :
    (∃ e ∈ files (dirSlots (twoFiles (ascii "ALUNOS~1TBL") (ascii "ALUNOS  TBL")) [2]),
      nameOf e = to83 alunos) ∧
    ¬ ∃ e ∈ files (dirSlots (twoFiles (ascii "ALUNOS~1TBL") (ascii "ALUNOS  TBL")) [2]),
      nameOf e = to83 alunos ∧ Yields OneFile.layout.bpb
        (twoFiles (ascii "ALUNOS~1TBL") (ascii "ALUNOS  TBL")) (wantedFile alunos) 2 1 0
        (foundAt e) := by
  have hlookup : lookup (wantedFile alunos)
      (dirSlots (twoFiles (ascii "ALUNOS~1TBL") (ascii "ALUNOS  TBL")) [2]) =
      ⟨2, 5, some (2, 0)⟩ := by
    decide
  have hplace : ∀ e ∈ files (dirSlots (twoFiles (ascii "ALUNOS~1TBL") (ascii "ALUNOS  TBL")) [2]),
      nameOf e = to83 alunos → e.place = (2, 1) := by
    decide
  refine ⟨by decide, ?_⟩
  rintro ⟨e, he, hname, hy⟩
  have hfound := yields_unique hy ((Directory.region 2 1).yields (wantedFile alunos))
  have hsame := Option.some.inj ((congrArg Found.place hfound).trans (congrArg Found.place hlookup))
  rw [hplace e he hname] at hsame
  cases hsame

theorem name_first_taken :
    ∃ e ∈ files (dirSlots (twoFiles (ascii "ALUNOS  TBL") (ascii "ALUNOS~1TBL")) [2]),
      nameOf e = to83 alunos ∧ Yields OneFile.layout.bpb
        (twoFiles (ascii "ALUNOS  TBL") (ascii "ALUNOS~1TBL")) (wantedFile alunos) 2 1 0
        (foundAt e) := by
  refine (exact_name_wins_iff _ _ 2 1 0 [2] (.region 2 1) alunos (by decide)).mpr ?_
  obtain ⟨s, hs⟩ : ∃ s, (files (dirSlots (twoFiles (ascii "ALUNOS  TBL") (ascii "ALUNOS~1TBL")) [2])
      ).find? (fun e ↦ nameOf e = to83 alunos || nameOf e = to83AliasGuess alunos) = some s :=
    Option.isSome_iff_exists.mp (by decide)
  have hname : ((files (dirSlots (twoFiles (ascii "ALUNOS  TBL") (ascii "ALUNOS~1TBL")) [2])
      ).find? (fun e ↦ nameOf e = to83 alunos || nameOf e = to83AliasGuess alunos)).map nameOf =
      some (to83 alunos) := by
    decide
  rw [hs, Option.map_some, Option.some.injEq] at hname
  exact (first_exact_iff hs).mp hname

end Examples

end FpgaDatabase.Firmware.AliasOrder
