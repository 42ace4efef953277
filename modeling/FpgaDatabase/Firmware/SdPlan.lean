import FpgaDatabase.Firmware.SdTermination

namespace FpgaDatabase.Firmware.SdPlan

open CString SdDriver SdSearch SdCopy

section Plan

/-- The `n` reads from number `s` on succeed. -/
def Clear (card : Card) (s n : ℕ) : Prop := ∀ i < n, card.fails (s + i) = false

variable (b : FatBPB) (image : ℕ → Sector) (w : Wanted) (name : List UInt8)

def looked : List ℕ → ℕ
  | [] => 0
  | sec :: secs => if (scanSector w sec (image sec)).isSome then 1 else looked secs + 1

/-- What the search along a chain finds, and with how many reads: behind every cluster without
a result comes one of the FAT. -/
inductive ChainSearched : ℕ → ℕ → Found → Prop
  | hit {c : ℕ} {f : Found} (h : probe b image w c = some f) :
      ChainSearched c (looked image w (clusterSectors b c)) f
  | last {c : ℕ} (h : probe b image w c = none) (hn : fatClusValid b (nextOf b image c) = false) :
      ChainSearched c (b.sectorsPerCluster + 1) notFound
  | link {c n : ℕ} {f : Found} (h : probe b image w c = none)
      (hn : fatClusValid b (nextOf b image c) = true) (hs : ChainSearched (nextOf b image c) n f) :
      ChainSearched c (b.sectorsPerCluster + 1 + n) f

def region (start maxSectors : ℕ) : List ℕ := (List.range maxSectors).map (fun s ↦ u32 (start + s))

def DirSearched (start maxSectors c n : ℕ) (f : Found) : Prop :=
  if 2 ≤ c then ChainSearched b image w c n f
  else n = looked image w (region start maxSectors) ∧
    f = ((dirSlots image (region start maxSectors)).findSome? (Slot.scan w)).getD notFound

def RootSearched (n : ℕ) (f : Found) : Prop :=
  if b.isFat32 then DirSearched b image w 0 0 b.rootCluster n f
  else DirSearched b image w b.rootDirSector b.rootDirSectors 0 n f

/-- The second half of the search for a file, after `file` came out of the root directory. -/
def TablesSearched (file : Found) (n : ℕ) (f : Found) : Prop :=
  ∃ m t, RootSearched b image wantedTables m t ∧
    if t.cluster = 0 then n = m ∧ f = file
    else ∃ l, DirSearched b image (wantedFile name) 0 0 t.cluster l f ∧ n = m + l

/-- What the reads of the copy loop are for, from the cluster `c` on, with `left` sectors to go. -/
def copyPlan : ℕ → ℕ → ℕ → List Purpose
  | 0, _, _ => []
  | rounds + 1, left, c =>
    if left = 0 ∨ fatClusValid b c = false then []
    else List.replicate (min b.sectorsPerCluster left) .data ++
      .fat :: copyPlan rounds (left - b.sectorsPerCluster) (nextOf b image c)

/-- The loop stops one byte late. -/
def sectorsCopied (fileSize bufSize : ℕ) : ℕ := min fileSize bufSize / 512 + 1

def filePlan (bufSize : ℕ) (f : Found) : List Purpose :=
  if f.fileSize = 0 then []
  else copyPlan b image (sectorsCopied f.fileSize bufSize) (sectorsCopied f.fileSize bufSize) f.cluster

end Plan

section Reads

variable {card : Card} {p : Purpose} {log : Log} {m n s i j : ℕ}

theorem length_record (card : Card) (log : Log) (p : Purpose) :
    (card.record log p).length = log.length + 1 := by
  simp [Card.record]

def clean (p : Purpose) (n : ℕ) : Log := List.replicate n ⟨p, false⟩

@[simp] theorem length_clean (p : Purpose) (n : ℕ) : (clean p n).length = n := List.length_replicate

theorem clean_add (p : Purpose) (m n : ℕ) : clean p m ++ clean p n = clean p (m + n) :=
  List.replicate_append_replicate

theorem clear_zero : Clear card s 0 := fun _ h ↦ absurd h (Nat.not_lt_zero _)

theorem Clear.mono (h : Clear card s n) (hm : m ≤ n) : Clear card s m :=
  fun i hi ↦ h i (hi.trans_le hm)

theorem Clear.add (h : Clear card s m) (h' : Clear card (s + m) n) : Clear card s (m + n) := by
  intro i hi
  by_cases him : i < m
  · exact h i him
  · have hrest := h' (i - m) (by omega)
    rwa [show s + m + (i - m) = s + i by omega] at hrest

theorem clear_one (h : card.fails s = false) : Clear card s 1 := by
  intro i hi
  rwa [Nat.lt_one_iff.mp hi]

theorem Clear.first (h : Clear card s i) (hf : card.fails (s + i) = true) (h' : Clear card s j)
    (hf' : card.fails (s + j) = true) : i = j := by
  rcases Nat.lt_trichotomy i j with hlt | heq | hlt
  · rw [h' i hlt] at hf
    cases hf
  · exact heq
  · rw [h j hlt] at hf'
    cases hf'

theorem Clear.le (h : Clear card s n) (hf : card.fails (s + i) = true) : n ≤ i := by
  by_contra hlt
  rw [h i (Nat.lt_of_not_le hlt)] at hf
  cases hf

theorem record_clear (hf : card.fails log.length = false) : card.record log p = log ++ clean p 1 := by
  rw [Card.record, hf]
  rfl

theorem record_failed (hf : card.fails log.length = true) : card.record log p = log ++ [⟨p, true⟩] := by
  rw [Card.record, hf]

end Reads

section Searches

variable {card : Card} {p : Purpose} {log : Log} {S : ℕ → Found → Prop} {Lost : Found → Prop} {r : Found × Log}
  {run : ℕ → Log → Option (Found × Log)} {fuel i n : ℕ} {f : Found}

/-- How a search ends: as planned, or with the first read that fails. -/
inductive Ran (card : Card) (p : Purpose) (S : ℕ → Found → Prop) (Lost : Found → Prop) (log : Log) :
    Found × Log → Prop
  | whole {n : ℕ} {f : Found} (hs : S n f) (hc : Clear card log.length n) :
      Ran card p S Lost log (f, log ++ clean p n)
  | broken {i : ℕ} {f : Found} (hl : Lost f) (hs : ∀ n f, S n f → i < n) (hc : Clear card log.length i)
      (hf : card.fails (log.length + i) = true) :
      Ran card p S Lost log (f, log ++ (clean p i ++ [⟨p, true⟩]))

/-- The function `run` carries out the search that `S` plans. Every round makes a read. -/
structure Searches (card : Card) (p : Purpose) (S : ℕ → Found → Prop) (Lost : Found → Prop)
    (run : ℕ → Log → Option (Found × Log)) : Prop where
  ran : ∀ fuel log r, run fuel log = some r → Ran card p S Lost log r
  endless : ∀ fuel log, run fuel log = none → Clear card log.length fuel ∧ ∀ n f, S n f → fuel ≤ n
  unique : ∀ n f n' f', S n f → S n' f' → n = n' ∧ f = f'

theorem Searches.run_broken (h : Searches card p S Lost run) (hs : ∀ n f, S n f → i < n)
    (hc : Clear card log.length i) (hf : card.fails (log.length + i) = true) :
    ∃ fuel f, Lost f ∧ run fuel log = some (f, log ++ (clean p i ++ [⟨p, true⟩])) := by
  refine ⟨i + 1, ?_⟩
  cases hr : run (i + 1) log with
  | none => exact absurd ((h.endless _ _ hr).1.le hf) (Nat.not_succ_le_self i)
  | some r =>
    cases h.ran _ _ _ hr with
    | whole hs' hc' => exact absurd (hc'.le hf) (Nat.not_le.mpr (hs _ _ hs'))
    | broken hl _ hc' hf' =>
      rw [hc.first hf hc' hf']
      exact ⟨_, hl, rfl⟩

/-- A search that does not come to its end meets no read that fails. -/
theorem Searches.clear (h : Searches card p S Lost run) (hr : ∀ fuel, run fuel log = none) (n : ℕ) :
    Clear card log.length n :=
  (h.endless n log (hr n)).1

theorem Searches.unplanned (h : Searches card p S Lost run) (hr : ∀ fuel, run fuel log = none) : ¬ S n f :=
  fun hs ↦ absurd ((h.endless (n + 1) log (hr _)).2 n f hs) (Nat.not_succ_le_self n)

end Searches

section Directories

variable {card : Card} {b : FatBPB} {w : Wanted} {p : Purpose} {name : List UInt8} {log : Log}
  {fuel c n : ℕ} {f file : Found} {r : Found × Log}

theorem looked_none {image : ℕ → Sector} {secs : List ℕ}
    (h : (dirSlots image secs).findSome? (Slot.scan w) = none) : looked image w secs = secs.length := by
  induction secs with
  | nil => rfl
  | cons sec secs ih =>
    rw [dirSlots, List.flatMap_cons, List.findSome?_append, ← scanSector_eq, Option.or_eq_none_iff] at h
    rw [looked, h.1, if_neg (by simp), ih h.2, List.length_cons]

/-- The sectors are looked at until one has a result, or cannot be read. -/
theorem scanSectors_ran (card : Card) (w : Wanted) (p : Purpose) (log : Log) (secs : List ℕ) :
    Clear card log.length (looked card.image w secs) ∧
      scanSectors card w p log secs = ((dirSlots card.image secs).findSome? (Slot.scan w),
        log ++ clean p (looked card.image w secs)) ∨
    ∃ i < looked card.image w secs, Clear card log.length i ∧ card.fails (log.length + i) = true ∧
      scanSectors card w p log secs = (some notFound, log ++ (clean p i ++ [⟨p, true⟩])) := by
  induction secs generalizing log with
  | nil => exact .inl ⟨clear_zero, by simp [scanSectors, dirSlots, looked, clean]⟩
  | cons sec secs ih =>
    cases hf : card.fails log.length with
    | true =>
      refine .inr ⟨0, ?_, clear_zero, hf, ?_⟩
      · rw [looked]
        split_ifs <;> omega
      · simp only [scanSectors, Card.sdReadSector, hf, if_true, record_failed hf]
        rfl
    | false =>
      have hd : (dirSlots card.image (sec :: secs)).findSome? (Slot.scan w) =
          (scanSector w sec (card.image sec)).or ((dirSlots card.image secs).findSome? (Slot.scan w)) := by
        rw [dirSlots, List.flatMap_cons, List.findSome?_append, ← scanSector_eq]
        rfl
      have hlen : (log ++ clean p 1).length = log.length + 1 := by simp
      simp only [scanSectors, Card.sdReadSector, hf, Bool.false_eq_true, if_false, hd, looked,
        record_clear hf]
      cases hs : scanSector w sec (card.image sec) with
      | some found => exact .inl ⟨clear_one hf, rfl⟩
      | none =>
        simp only [Option.isSome_none, Bool.false_eq_true, if_false, Option.none_or]
        rcases @ih (log ++ clean p 1) with ⟨hc, hr⟩ | ⟨i, hi, hc, hfi, hr⟩
        · rw [hlen] at hc
          refine .inl ⟨?_, ?_⟩
          · rw [Nat.add_comm]
            exact (clear_one hf).add hc
          · rw [hr, List.append_assoc, clean_add, Nat.add_comm 1]
        · rw [hlen] at hc hfi
          refine .inr ⟨i + 1, Nat.succ_lt_succ hi, ?_, ?_, ?_⟩
          · rw [Nat.add_comm]
            exact (clear_one hf).add hc
          · rwa [Nat.add_comm i, ← Nat.add_assoc]
          · rw [hr, List.append_assoc, ← List.append_assoc (clean p 1), clean_add, Nat.add_comm 1]

theorem ChainSearched.looked_le {image : ℕ → Sector} (h : ChainSearched b image w c n f) :
    looked image w (clusterSectors b c) ≤ n := by
  have hnone (hp : probe b image w c = none) :
      looked image w (clusterSectors b c) = b.sectorsPerCluster := by
    rw [looked_none hp, clusterSectors, List.length_map, List.length_range]
  cases h with
  | hit => exact le_rfl
  | last hp =>
    rw [hnone hp]
    exact Nat.le_succ _
  | link hp =>
    rw [hnone hp]
    omega

theorem ChainSearched.unique {image : ℕ → Sector} {n' : ℕ} {f' : Found}
    (h : ChainSearched b image w c n f) (h' : ChainSearched b image w c n' f') : n = n' ∧ f = f' := by
  induction h generalizing n' f' with
  | hit hp =>
    cases h' with
    | hit hp' => exact ⟨rfl, Option.some.inj (hp.symm.trans hp')⟩
    | last hp' => cases hp.symm.trans hp'
    | link hp' => cases hp.symm.trans hp'
  | last hp hn =>
    cases h' with
    | hit hp' => cases hp.symm.trans hp'
    | last => exact ⟨rfl, rfl⟩
    | link _ hn' => cases hn.symm.trans hn'
  | link hp hn _ ih =>
    cases h' with
    | hit hp' => cases hp.symm.trans hp'
    | last _ hn' => cases hn.symm.trans hn'
    | link _ _ hs' =>
      obtain ⟨rfl, rfl⟩ := ih hs'
      exact ⟨rfl, rfl⟩

/-- A FAT sector that cannot be read ends the chain. -/
theorem next_of_failed (hf : card.fails log.length = true) :
    fatClusValid b (fatNextCluster b card log c) = false := by
  unfold fatNextCluster fat32Next fat16Next Card.sdReadSector fatClusValid fatIsEoc
  cases hb : b.isFat32 <;> simp [hf]

theorem next_of_read (hf : card.fails log.length = false) :
    fatNextCluster b card log c = nextOf b card.image c := by
  unfold nextOf fatNextCluster fat32Next fat16Next Card.sdReadSector
  simp [hf, sound]

theorem scanChain_round (card : Card) (w : Wanted) (p : Purpose) (b : FatBPB) (fuel : ℕ) (log : Log) (c : ℕ) :
    (∃ r, scanChain card w p b (fuel + 1) log c = some r ∧
      Ran card p (ChainSearched b card.image w c) (· = notFound) log r) ∨
    probe b card.image w c = none ∧ fatClusValid b (nextOf b card.image c) = true ∧
      Clear card log.length (b.sectorsPerCluster + 1) ∧
      scanChain card w p b (fuel + 1) log c =
        scanChain card w p b fuel (log ++ clean p (b.sectorsPerCluster + 1)) (nextOf b card.image c) := by
  rw [scanChain]
  rcases scanSectors_ran card w p log (clusterSectors b c) with ⟨hc, hr⟩ | ⟨i, hi, hc, hf, hr⟩
  · rw [hr]
    change Clear card log.length _ at hc
    cases hp : probe b card.image w c with
    | some found =>
      have hfind : (dirSlots card.image (clusterSectors b c)).findSome? (Slot.scan w) = some found := hp
      simp only [hfind]
      exact .inl ⟨_, rfl, .whole (.hit hp) hc⟩
    | none =>
      have hfind : (dirSlots card.image (clusterSectors b c)).findSome? (Slot.scan w) = none := hp
      have hlen : looked card.image w (clusterSectors b c) = b.sectorsPerCluster := by
        rw [looked_none hfind, clusterSectors, List.length_map, List.length_range]
      simp only [hfind]
      rw [hlen] at hc ⊢
      have hat : (log ++ clean p b.sectorsPerCluster).length = log.length + b.sectorsPerCluster := by simp
      cases hf : card.fails (log.length + b.sectorsPerCluster) with
      | true =>
        have hf' := hat.symm ▸ hf
        rw [if_neg (by simp [next_of_failed hf']), record_failed hf', List.append_assoc]
        refine .inl ⟨_, rfl, .broken rfl (fun n f hs ↦ ?_) hc hf⟩
        cases hs with
        | hit hp' => cases hp.symm.trans hp'
        | last => exact Nat.lt_succ_self _
        | link => omega
      | false =>
        have hf' := hat.symm ▸ hf
        rw [next_of_read hf', record_clear hf', List.append_assoc, clean_add]
        have hround := hc.add (clear_one hf)
        by_cases hv : fatClusValid b (nextOf b card.image c) = true
        · rw [if_pos hv]
          exact .inr ⟨trivial, hv, hround, rfl⟩
        · rw [if_neg hv]
          exact .inl ⟨_, rfl, .whole (.last hp (Bool.not_eq_true _ ▸ hv)) hround⟩
  · rw [hr]
    exact .inl ⟨_, rfl, .broken rfl (fun n f hs ↦ hi.trans_le hs.looked_le) hc hf⟩

/-- A search whose first `m` reads were made is the search from there on. -/
theorem Ran.behind {S S' : ℕ → Found → Prop} {Lost Lost' : Found → Prop} {m : ℕ}
    (h : Ran card p S' Lost' (log ++ clean p m) r) (hc : Clear card log.length m)
    (hlost : ∀ f, Lost' f → Lost f) (hto : ∀ n f, S' n f → S (m + n) f)
    (hfrom : ∀ n f, S n f → ∃ n', n = m + n' ∧ S' n' f) : Ran card p S Lost log r := by
  have hlen : (log ++ clean p m).length = log.length + m := by simp
  cases h with
  | whole hs hc' =>
    rw [hlen] at hc'
    rw [List.append_assoc, clean_add]
    exact .whole (hto _ _ hs) (hc.add hc')
  | broken hl hs hc' hf =>
    rw [hlen] at hc' hf
    rw [List.append_assoc, ← List.append_assoc (clean p m), clean_add]
    refine .broken (hlost _ hl) (fun n f hs' ↦ ?_) (hc.add hc') (by rwa [← Nat.add_assoc])
    obtain ⟨n', rfl, hs''⟩ := hfrom n f hs'
    exact Nat.add_lt_add_left (hs n' f hs'') m

theorem chain_searches (card : Card) (w : Wanted) (p : Purpose) (b : FatBPB) (c : ℕ) :
    Searches card p (ChainSearched b card.image w c) (· = notFound)
      (fun fuel log ↦ scanChain card w p b fuel log c) := by
  have hlink {c n : ℕ} {f : Found} (hp : probe b card.image w c = none)
      (hn : fatClusValid b (nextOf b card.image c) = true) (hs : ChainSearched b card.image w c n f) :
      ∃ n', n = b.sectorsPerCluster + 1 + n' ∧ ChainSearched b card.image w (nextOf b card.image c) n' f := by
    cases hs with
    | hit hp' => cases hp.symm.trans hp'
    | last _ hn' => cases hn.symm.trans hn'
    | link _ _ hs' => exact ⟨_, rfl, hs'⟩
  refine ⟨fun fuel ↦ ?_, fun fuel ↦ ?_, fun _ _ _ _ ↦ ChainSearched.unique⟩
  · induction fuel generalizing c with
    | zero =>
      intro log r h
      cases h
    | succ fuel ih =>
      intro log r h
      rcases scanChain_round card w p b fuel log c with ⟨r', hr, hran⟩ | ⟨hp, hn, hc, hr⟩
      · obtain rfl : r' = r := Option.some.inj (hr.symm.trans h)
        exact hran
      · exact (ih _ _ _ (hr.symm.trans h)).behind hc (fun _ ↦ id) (fun _ _ ↦ .link hp hn) fun _ _ ↦ hlink hp hn
  · induction fuel generalizing c with
    | zero => exact fun log _ ↦ ⟨clear_zero, fun _ _ _ ↦ Nat.zero_le _⟩
    | succ fuel ih =>
      intro log h
      rcases scanChain_round card w p b fuel log c with ⟨r', hr, -⟩ | ⟨hp, hn, hc, hr⟩
      · cases hr.symm.trans h
      · obtain ⟨hrest, hlong⟩ := ih _ _ (hr.symm.trans h)
        simp only [List.length_append, length_clean] at hrest
        refine ⟨(hc.add hrest).mono (by omega), fun n f hs ↦ ?_⟩
        obtain ⟨n', rfl, hs'⟩ := hlink hp hn hs
        have hle := hlong n' f hs'
        omega

theorem dir_searches (card : Card) (w : Wanted) (p : Purpose) (b : FatBPB) (start m c : ℕ) :
    Searches card p (DirSearched b card.image w start m c) (· = notFound)
      (fun fuel log ↦ fatScanDir card w p b fuel log start m c) := by
  by_cases hc : 2 ≤ c
  · simp only [fatScanDir, if_pos hc]
    have hplan : DirSearched b card.image w start m c = ChainSearched b card.image w c := by
      funext n f
      rw [DirSearched, if_pos hc]
    rw [hplan]
    exact chain_searches card w p b c
  · have hplan (n : ℕ) (f : Found) : DirSearched b card.image w start m c n f ↔
        n = looked card.image w (region start m) ∧
          f = ((dirSlots card.image (region start m)).findSome? (Slot.scan w)).getD notFound := by
      rw [DirSearched, if_neg hc]
    simp only [fatScanDir, if_neg hc]
    refine ⟨fun fuel log r h ↦ ?_, fun fuel log h ↦ by simp at h, fun n f n' f' h h' ↦ ?_⟩
    · obtain rfl := Option.some.inj h
      rw [← region]
      rcases scanSectors_ran card w p log (region start m) with ⟨hclear, hr⟩ | ⟨i, hi, hclear, hf, hr⟩
      · rw [hr]
        exact .whole ((hplan _ _).mpr ⟨rfl, rfl⟩) hclear
      · rw [hr]
        refine .broken rfl (fun n f hs ↦ ?_) hclear hf
        rw [((hplan n f).mp hs).1]
        exact hi
    · rw [hplan] at h h'
      exact ⟨h.1.trans h'.1.symm, h.2.trans h'.2.symm⟩

theorem root_searches (card : Card) (w : Wanted) (p : Purpose) (b : FatBPB) :
    Searches card p (RootSearched b card.image w) (· = notFound)
      (fun fuel log ↦ scanRoot card w p b fuel log) := by
  by_cases hb : b.isFat32 = true
  · have hplan : RootSearched b card.image w = DirSearched b card.image w 0 0 b.rootCluster := by
      funext n f
      rw [RootSearched, if_pos hb]
    simp only [scanRoot, if_pos hb, hplan]
    exact dir_searches card w p b 0 0 b.rootCluster
  · have hplan : RootSearched b card.image w =
        DirSearched b card.image w b.rootDirSector b.rootDirSectors 0 := by
      funext n f
      rw [RootSearched, if_neg hb]
    simp only [scanRoot, if_neg hb, hplan]
    exact dir_searches card w p b b.rootDirSector b.rootDirSectors 0

def searchTables (card : Card) (b : FatBPB) (name : List UInt8) (file : Found) (fuel : ℕ) (log : Log) :
    Option (Found × Log) :=
  (scanRoot card wantedTables .tables b fuel log).bind fun r ↦
    if r.1.cluster ≠ 0 then fatScanDir card (wantedFile name) .tables b fuel r.2 0 0 r.1.cluster
    else some (file, r.2)

theorem locate_eq (card : Card) (b : FatBPB) (name : List UInt8) (fuel : ℕ) (log : Log) :
    locate card b name fuel log = (scanRoot card (wantedFile name) .root b fuel log).bind fun r ↦
      if r.1.cluster ≠ 0 then some r else searchTables card b name r.1 fuel r.2 := rfl

theorem TablesSearched.root {image : ℕ → Sector} (h : TablesSearched b image name file n f) :
    ∃ m t, RootSearched b image wantedTables m t ∧ m ≤ n := by
  obtain ⟨m, t, ht, hrest⟩ := h
  refine ⟨m, t, ht, ?_⟩
  split_ifs at hrest
  · omega
  · obtain ⟨l, -, rfl⟩ := hrest
    omega

/-- Once TABLES was found, what is left is the search in it. -/
theorem TablesSearched.table {t : Found} {m : ℕ} (h : TablesSearched b card.image name file n f)
    (hs : RootSearched b card.image wantedTables m t) (ht : t.cluster ≠ 0) :
    ∃ l, n = m + l ∧ DirSearched b card.image (wantedFile name) 0 0 t.cluster l f := by
  obtain ⟨m', t', hs', hrest⟩ := h
  obtain ⟨rfl, rfl⟩ := (root_searches card wantedTables .tables b).unique _ _ _ _ hs hs'
  rw [if_neg ht] at hrest
  obtain ⟨l, hl, rfl⟩ := hrest
  exact ⟨l, rfl, hl⟩

theorem tables_ran (hfile : file.cluster = 0) (h : searchTables card b name file fuel log = some r) :
    Ran card .tables (TablesSearched b card.image name file) (·.cluster = 0) log r := by
  have hroot := root_searches card wantedTables .tables b
  obtain ⟨⟨t, log₁⟩, h₁, h⟩ := Option.bind_eq_some_iff.mp h
  simp only at h
  cases hroot.ran _ _ _ h₁ with
  | @whole n _ hs hc =>
    by_cases ht : t.cluster = 0
    · rw [if_neg (not_not_intro ht)] at h
      cases h
      exact .whole ⟨n, t, hs, by rw [if_pos ht]; exact ⟨rfl, rfl⟩⟩ hc
    · rw [if_pos ht] at h
      refine ((dir_searches card (wantedFile name) .tables b 0 0 t.cluster).ran _ _ _ h).behind hc
        (fun f hf ↦ by rw [hf]; rfl) (fun l f hl ↦ ?_) fun k f hk ↦ hk.table hs ht
      exact ⟨n, t, hs, by rw [if_neg ht]; exact ⟨l, hl, rfl⟩⟩
  | broken hl hs hc hf =>
    obtain rfl : t = notFound := hl
    cases h
    refine .broken hfile (fun k f hk ↦ ?_) hc hf
    obtain ⟨m, t, ht, hle⟩ := hk.root
    exact (hs m t ht).trans_le hle

theorem tables_endless (h : searchTables card b name file fuel log = none) :
    Clear card log.length fuel ∧ ∀ n f, TablesSearched b card.image name file n f → fuel ≤ n := by
  have hroot := root_searches card wantedTables .tables b
  cases h₁ : scanRoot card wantedTables .tables b fuel log with
  | none =>
    obtain ⟨hc, hlong⟩ := hroot.endless _ _ h₁
    refine ⟨hc, fun k f hk ↦ ?_⟩
    obtain ⟨m, t, ht, hle⟩ := hk.root
    exact (hlong m t ht).trans hle
  | some r =>
    obtain ⟨t, log₁⟩ := r
    rw [searchTables, h₁] at h
    simp only [Option.bind_some] at h
    split_ifs at h with ht
    cases hroot.ran _ _ _ h₁ with
    | @whole n _ hs hc =>
      obtain ⟨hrest, hlong⟩ := (dir_searches card (wantedFile name) .tables b 0 0 t.cluster).endless _ _ h
      simp only [List.length_append, length_clean] at hrest
      refine ⟨(hc.add hrest).mono (Nat.le_add_left _ _), fun k f hk ↦ ?_⟩
      obtain ⟨l, rfl, hl⟩ := hk.table hs ht
      exact (hlong l f hl).trans (Nat.le_add_left _ _)
    | broken hl => exact absurd (hl ▸ rfl) ht

theorem tables_unique {f' : Found} {n' : ℕ} (hs : TablesSearched b card.image name file n f)
    (hs' : TablesSearched b card.image name file n' f') : n = n' ∧ f = f' := by
  obtain ⟨m, t, ht, h⟩ := hs
  obtain ⟨m', t', ht', h'⟩ := hs'
  obtain ⟨rfl, rfl⟩ := (root_searches card wantedTables .tables b).unique _ _ _ _ ht ht'
  split_ifs at h h'
  · exact ⟨h.1.trans h'.1.symm, h.2.trans h'.2.symm⟩
  · obtain ⟨l, hl, rfl⟩ := h
    obtain ⟨l', hl', rfl⟩ := h'
    obtain ⟨rfl, rfl⟩ := (dir_searches card (wantedFile name) .tables b 0 0 t.cluster).unique _ _ _ _ hl hl'
    exact ⟨rfl, rfl⟩

theorem tables_searches (card : Card) (b : FatBPB) (name : List UInt8) (hfile : file.cluster = 0) :
    Searches card .tables (TablesSearched b card.image name file) (·.cluster = 0)
      (searchTables card b name file) :=
  ⟨fun _ _ _ h ↦ tables_ran hfile h, fun _ _ h ↦ tables_endless h, fun _ _ _ _ h h' ↦ tables_unique h h'⟩

end Directories

section Copying

variable {card : Card} {b : FatBPB} {fileSize bufSize fuel c s left rounds i l : ℕ} {log log' : Log}
  {data : List UInt8} {k k' : Copy} {ok : Bool} {plan : List Purpose} {q : Purpose}

theorem done_iff (h : Copied (min fileSize bufSize) data k) (hs : data.length = 512 * s) :
    k.done = true ↔ sectorsCopied fileSize bufSize - s = 0 := by
  rw [h.done, hs, sectorsCopied]
  omega

theorem copySectors_ran (card : Card) (log : Log) (secs : List ℕ)
    (h : Copied (min fileSize bufSize) data k) (hs : data.length = 512 * s) :
    (∃ k' log', copySectors card fileSize bufSize log secs k = (true, k', log') ∧
      Clear card log.length (min secs.length (sectorsCopied fileSize bufSize - s)) ∧
      log'.length = log.length + min secs.length (sectorsCopied fileSize bufSize - s) ∧
      Copied (min fileSize bufSize) (data ++ secs.flatMap (sectorBytes card.image)) k') ∨
    ∃ i < min secs.length (sectorsCopied fileSize bufSize - s), ∃ k' log',
      copySectors card fileSize bufSize log secs k = (false, k', log') ∧ Clear card log.length i ∧
      card.fails (log.length + i) = true ∧ log'.length = log.length + i + 1 := by
  induction secs generalizing log data k s with
  | nil => exact .inl ⟨k, log, rfl, by simpa using clear_zero, by simp, by simpa using h⟩
  | cons sec secs ih =>
    have hdone := done_iff h hs
    rw [copySectors]
    by_cases hd : k.done = true
    · rw [if_pos hd, hdone.mp hd]
      exact .inl ⟨k, log, rfl, by simpa using clear_zero, by simp, h.skip hd _⟩
    · rw [if_neg hd]
      have hleft := hdone.not.mp hd
      rw [List.length_cons]
      cases hf : card.fails log.length with
      | true =>
        simp only [Card.sdReadSector, hf, if_true]
        exact .inr ⟨0, by omega, _, _, rfl, clear_zero, hf, by simp [Card.record]⟩
      | false =>
        simp only [Card.sdReadSector, hf, Bool.false_eq_true, if_false]
        have hnext := copyBytes_copied (card.image sec) (List.range 512) h
        have hlen : (data ++ (List.range 512).map (card.image sec)).length = 512 * (s + 1) := by
          simp [hs, Nat.mul_succ]
        have hat := length_record card log .data
        rcases ih (card.record log .data) hnext hlen with
          ⟨k', log', hr, hc, hl, hk⟩ | ⟨i, hi, k', log', hr, hc, hfi, hl⟩
        · rw [hat] at hc hl
          refine .inl ⟨k', log', hr, ((clear_one hf).add hc).mono (by omega), by omega, ?_⟩
          rw [List.flatMap_cons, ← List.append_assoc]
          exact hk
        · rw [hat] at hc hfi hl
          refine .inr ⟨i + 1, by omega, k', log', hr, ((clear_one hf).add hc).mono (by omega), ?_, by omega⟩
          rwa [Nat.add_comm i, ← Nat.add_assoc]

/-- How the copy ends that begins at read number `s`, and how many reads there are then: as planned, or
with the first read that fails. -/
inductive CopyRan (card : Card) (plan : List Purpose) (s : ℕ) : Bool → ℕ → Prop
  | whole (hc : Clear card s plan.length) : CopyRan card plan s true (s + plan.length)
  | broken {i : ℕ} {q : Purpose} (hq : plan[i]? = some q) (hc : Clear card s i)
      (hf : card.fails (s + i) = true) : CopyRan card plan s (decide (q = .fat)) (s + i + 1)

theorem CopyRan.behind {before : List Purpose} (h : CopyRan card plan (s + before.length) ok l)
    (hc : Clear card s before.length) : CopyRan card (before ++ plan) s ok l := by
  cases h with
  | whole hc' =>
    rw [Nat.add_assoc, ← List.length_append]
    exact .whole (List.length_append ▸ hc.add hc')
  | @broken i q hq hc' hf =>
    rw [Nat.add_assoc s]
    refine .broken ?_ (hc.add hc') (by rwa [← Nat.add_assoc])
    rwa [List.getElem?_append_right (Nat.le_add_right _ _), Nat.add_sub_cancel_left]

section Rounds

variable {m : ℕ} {rest : List Purpose}

/-- A cluster is planned as `m` data sectors and a FAT sector. A data sector of it fails, -/
theorem CopyRan.dataSector (hi : i < m) (hc : Clear card s i) (hf : card.fails (s + i) = true) :
    CopyRan card (List.replicate m .data ++ rest) s false (s + i + 1) := by
  refine .broken (q := .data) ?_ hc hf
  rw [List.getElem?_append_left (by simpa using hi), List.getElem?_replicate, if_pos hi]

/-- or the FAT sector behind it, -/
theorem CopyRan.fatSector (hc : Clear card s m) (hf : card.fails (s + m) = true) :
    CopyRan card (List.replicate m .data ++ .fat :: rest) s true (s + m + 1) := by
  refine .broken (q := .fat) ?_ hc hf
  rw [List.getElem?_append_right (by simp)]
  simp

/-- or none of them, and the copy goes on. -/
theorem CopyRan.round (hc : Clear card s m) (hf : card.fails (s + m) = false)
    (h : CopyRan card rest (s + m + 1) ok l) :
    CopyRan card (List.replicate m .data ++ .fat :: rest) s ok l := by
  have hlen : (List.replicate m Purpose.data ++ [Purpose.fat]).length = m + 1 := by simp
  rw [List.append_cons]
  refine CopyRan.behind ?_ ?_
  · rwa [hlen]
  · rw [hlen]
    exact hc.add (clear_one hf)

end Rounds

theorem length_copied (hs : data.length = 512 * s) (image : ℕ → Sector) :
    (data ++ (clusterSectors b c).flatMap (sectorBytes image)).length =
      512 * (s + b.sectorsPerCluster) := by
  have hbytes := length_clusterBytes b image [c]
  rw [clusterBytes, List.flatMap_singleton] at hbytes
  rw [List.length_append, hs, hbytes, List.length_singleton]
  omega

/-- Behind a FAT sector that cannot be read the chain has ended. -/
theorem copyChain_fat_failed (hf : card.fails log.length = true)
    (h : copyChain card b fileSize bufSize fuel (card.record log .fat) (fatNextCluster b card log c) k =
      some (ok, k', log')) : ok = true ∧ log'.length = log.length + 1 := by
  cases fuel with
  | zero => cases h
  | succ fuel =>
    rw [copyChain_stop _ _ _ _ _ (.inr (next_of_failed hf))] at h
    cases h
    exact ⟨rfl, length_record card log .fat⟩

theorem copyChain_ran (hspc : 0 < b.sectorsPerCluster)
    (h : copyChain card b fileSize bufSize fuel log c k = some (ok, k', log'))
    (hk : Copied (min fileSize bufSize) data k) (hs : data.length = 512 * s)
    (hr : sectorsCopied fileSize bufSize - s ≤ rounds) :
    CopyRan card (copyPlan b card.image rounds (sectorsCopied fileSize bufSize - s) c) log.length ok
      log'.length := by
  induction fuel generalizing log c k data s rounds with
  | zero => cases h
  | succ fuel ih =>
    have hdone := done_iff hk hs
    by_cases hstop : k.done = true ∨ fatClusValid b c = false
    · rw [copyChain_stop _ _ _ _ _ hstop] at h
      cases h
      have hnil : copyPlan b card.image rounds (sectorsCopied fileSize bufSize - s) c = [] := by
        cases rounds with
        | zero => rfl
        | succ rounds => rw [copyPlan, if_pos (hstop.imp_left hdone.mp)]
      rw [hnil]
      exact .whole clear_zero
    · obtain ⟨hd, hv⟩ := not_or.mp hstop
      rw [Bool.not_eq_true] at hd
      rw [Bool.not_eq_false] at hv
      have hleft := hdone.not.mp (by rw [hd]; simp)
      obtain ⟨rounds, rfl⟩ := Nat.exists_eq_succ_of_ne_zero (show rounds ≠ 0 by omega)
      rw [copyChain_succ _ _ _ _ _ hd hv] at h
      rw [copyPlan, if_neg (by simp [hleft, hv])]
      have hk₀ : Copied (min fileSize bufSize) data { k with followed := k.followed ++ [c] } :=
        ⟨hk.bytesRead, hk.done, hk.buf⟩
      have hspcs : (clusterSectors b c).length = b.sectorsPerCluster := by
        rw [clusterSectors, List.length_map, List.length_range]
      rcases copySectors_ran card log (clusterSectors b c) hk₀ hs with
        ⟨k₁, log₁, he, hc, hl, hk₁⟩ | ⟨i, hi, k₁, log₁, he, hc, hf, hl⟩
      · rw [he] at h
        rw [hspcs] at hc hl
        simp only at h
        cases hf : card.fails log₁.length with
        | true =>
          obtain ⟨rfl, hend⟩ := copyChain_fat_failed hf h
          rw [hend, hl]
          exact .fatSector hc (hl ▸ hf)
        | false =>
          rw [next_of_read hf] at h
          have hrounds : sectorsCopied fileSize bufSize - (s + b.sectorsPerCluster) ≤ rounds := by omega
          have hrest := ih h hk₁ (length_copied hs card.image) hrounds
          rw [← Nat.sub_sub, length_record, hl] at hrest
          exact .round hc (hl ▸ hf) hrest
      · rw [he] at h
        rw [hspcs] at hi
        cases h
        rw [hl]
        exact .dataSector hi hc hf

theorem copyPlan_mem {image : ℕ → Sector} (h : q ∈ copyPlan b image rounds left c) :
    q = .data ∨ q = .fat := by
  induction rounds generalizing left c with
  | zero => cases h
  | succ rounds ih =>
    rw [copyPlan] at h
    split_ifs at h
    · cases h
    · rcases List.mem_append.mp h with h | h
      · exact .inl (List.eq_of_mem_replicate h)
      · rcases List.mem_cons.mp h with h | h
        · exact .inr h
        · exact ih h

end Copying

end FpgaDatabase.Firmware.SdPlan
