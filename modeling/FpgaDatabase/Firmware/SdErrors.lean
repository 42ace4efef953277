import FpgaDatabase.Firmware.SdPlan

namespace FpgaDatabase.Firmware.SdErrors

open CString SdDriver SdSearch SdCopy SdPlan SdTermination

variable {card card' : Card} {w : Wanted} {p : Purpose} {b : FatBPB} {name : List UInt8}
  {fileSize bufSize fuel c n s : ℕ} {log log' : Log} {k : Copy} {f file : Found} {buf : Buffer} {o : Outcome}

section Property

/-- The same volume, with the same result of the first `n` reads. -/
def Agree (card card' : Card) (n : ℕ) : Prop :=
  card'.image = card.image ∧ ∀ k < n, card'.fails k = card.fails k

/-- The call makes its read number `k`: a call that has seen the same until then and returns has
made it. -/
def Makes (card : Card) (name : List UInt8) (bufSize : ℕ) (buf : Buffer) (k : ℕ) : Prop :=
  ∃ card' o, Agree card card' k ∧ Returns card' name bufSize buf o ∧ k < o.log.length

/-- The call reports its read errors: if a read that it makes fails it returns -1, and what is not
negative it returns without any failures as well. -/
def Reports (card : Card) (name : List UInt8) (bufSize : ℕ) (buf : Buffer) : Prop :=
  (∀ k, Makes card name bufSize buf k → card.fails k = true →
    ∃ o, Returns card name bufSize buf o ∧ o.ret = -1) ∧
  ∀ o, Returns card name bufSize buf o → 0 ≤ o.ret → Returns (sound card.image) name bufSize buf o

/-- No read of the FAT is the first to fail of those that copy the file, from number `s` on. -/
def CopyCaught (card : Card) (b : FatBPB) (bufSize : ℕ) (f : Found) (s : ℕ) : Prop :=
  ∀ i, Clear card s i → card.fails (s + i) = true → (filePlan b card.image bufSize f)[i]? ≠ some .fat

/-- A read of the data is the first to fail of those that copy the file. -/
def CopyFails (card : Card) (b : FatBPB) (bufSize : ℕ) (f : Found) (s : ℕ) : Prop :=
  ∃ i, Clear card s i ∧ card.fails (s + i) = true ∧ (filePlan b card.image bufSize f)[i]? = some .data

/-- The searches begin with read number `s`. If they succeed, the first read to fail, if there is one,
is not of the FAT. If one in the root directory fails, then the search of TABLES that comes next fails
as well, or finds no file, or one of which a data sector cannot be read. -/
structure Caught (card : Card) (b : FatBPB) (name : List UInt8) (bufSize s : ℕ) : Prop where
  root : ∀ n f, RootSearched b card.image (wantedFile name) n f → Clear card s n → f.cluster ≠ 0 →
    CopyCaught card b bufSize f (s + n)
  tables : ∀ n f, RootSearched b card.image (wantedFile name) n f → Clear card s n → f.cluster = 0 →
    ∀ m g, TablesSearched b card.image name f m g → Clear card (s + n) m → g.cluster ≠ 0 →
      CopyCaught card b bufSize g (s + n + m)
  lost : ∀ i, (∀ n f, RootSearched b card.image (wantedFile name) n f → i < n) → Clear card s i →
    card.fails (s + i) = true →
      (∃ j, (∀ m g, TablesSearched b card.image name notFound m g → j < m) ∧
        card.fails (s + i + 1 + j) = true) ∨
      ∃ m g, TablesSearched b card.image name notFound m g ∧
        (g.cluster = 0 ∨ CopyFails card b bufSize g (s + i + 1 + m))

end Property

section Prefix

theorem Agree.mono {m : ℕ} (h : Agree card card' n) (hm : m ≤ n) : Agree card card' m :=
  ⟨h.1, fun k hk ↦ h.2 k (hk.trans_le hm)⟩

theorem Agree.sdReadSector (h : Agree card card' n) (hn : log.length < n) (sec : ℕ) :
    card'.sdReadSector log sec = card.sdReadSector log sec := by
  rw [Card.sdReadSector, Card.sdReadSector, h.1, h.2 _ hn]

theorem Agree.record (h : Agree card card' n) (hn : log.length < n) :
    card'.record log p = card.record log p := by
  rw [Card.record, Card.record, h.2 _ hn]

theorem Agree.next (h : Agree card card' n) (hn : log.length < n) :
    fatNextCluster b card' log c = fatNextCluster b card log c := by
  unfold fatNextCluster fat32Next fat16Next
  simp only [h.sdReadSector hn]

theorem scanSectors_length (card : Card) (w : Wanted) (p : Purpose) (log : Log) (secs : List ℕ) :
    log.length ≤ (scanSectors card w p log secs).2.length := by
  rcases scanSectors_ran card w p log secs with ⟨-, hr⟩ | ⟨i, -, -, -, hr⟩ <;> simp [hr]

theorem scanSectors_agree {secs : List ℕ}
    (h : Agree card card' (scanSectors card w p log secs).2.length) :
    scanSectors card' w p log secs = scanSectors card w p log secs := by
  induction secs generalizing log with
  | nil => rfl
  | cons sec secs ih =>
    have hlt : log.length < (scanSectors card w p log (sec :: secs)).2.length := by
      rw [← Nat.add_one_le_iff, ← length_record card log p, scanSectors]
      split
      · exact le_rfl
      · split
        · exact le_rfl
        · exact scanSectors_length _ _ _ _ _
    rw [scanSectors, h.sdReadSector hlt sec, h.record hlt]
    rw [scanSectors] at h ⊢
    split
    · rfl
    · next s hs =>
      rw [hs] at h
      simp only at h
      split
      · rfl
      · next hnone =>
        rw [hnone] at h
        exact ih h

theorem Ran.length_le {S : ℕ → Found → Prop} {Lost : Found → Prop} {r : Found × Log}
    (h : Ran card p S Lost log r) : log.length ≤ r.2.length := by
  cases h <;> simp

theorem scanChain_agree {r : Found × Log} (hr : scanChain card w p b fuel log c = some r)
    (h : Agree card card' r.2.length) : scanChain card' w p b fuel log c = some r := by
  induction fuel generalizing log c with
  | zero => cases hr
  | succ fuel ih =>
    simp only [scanChain] at hr ⊢
    cases he : scanSectors card w p log (clusterSectors b c) with
    | mk found log₁ =>
      rw [he] at hr
      have hagree (hle : log₁.length ≤ r.2.length) :
          scanSectors card' w p log (clusterSectors b c) = (found, log₁) := by
        rw [← he]
        exact scanSectors_agree (h.mono (by rw [he]; exact hle))
      cases found with
      | some f =>
        cases hr
        rw [hagree le_rfl]
      | none =>
        simp only at hr
        have hlt : log₁.length < r.2.length := by
          rw [← Nat.add_one_le_iff, ← length_record card log₁ p]
          split_ifs at hr
          · exact Ran.length_le ((chain_searches card w p b _).ran _ _ _ hr)
          · rw [← Option.some.inj hr]
        rw [hagree hlt.le]
        simp only [h.next hlt, h.record hlt]
        split_ifs at hr ⊢
        · exact ih hr
        · exact hr

theorem fatScanDir_agree {start m : ℕ} {r : Found × Log}
    (hr : fatScanDir card w p b fuel log start m c = some r) (h : Agree card card' r.2.length) :
    fatScanDir card' w p b fuel log start m c = some r := by
  unfold fatScanDir at hr ⊢
  split_ifs at hr ⊢
  · exact scanChain_agree hr h
  · cases hr
    rw [scanSectors_agree h]

theorem scanRoot_agree {r : Found × Log} (hr : scanRoot card w p b fuel log = some r)
    (h : Agree card card' r.2.length) : scanRoot card' w p b fuel log = some r := by
  unfold scanRoot at hr ⊢
  split_ifs at hr ⊢
  · exact fatScanDir_agree hr h
  · exact fatScanDir_agree hr h

theorem locate_agree {r : Found × Log} (hr : locate card b name fuel log = some r)
    (h : Agree card card' r.2.length) : locate card' b name fuel log = some r := by
  obtain ⟨file, log₁, h₁, hr⟩ := locate_eq_some_iff.mp hr
  refine locate_eq_some_iff.mpr ⟨file, log₁, ?_, ?_⟩
  · refine scanRoot_agree h₁ (h.mono ?_)
    split_ifs at hr
    · rw [← hr]
    · obtain ⟨tables, log₂, h₂, hr⟩ := hr
      have hlen := Ran.length_le ((root_searches card wantedTables .tables b).ran _ _ _ h₂)
      refine hlen.trans ?_
      split_ifs at hr
      · exact Ran.length_le ((dir_searches card (wantedFile name) .tables b 0 0 _).ran _ _ _ hr)
      · rw [← hr]
  · split_ifs at hr ⊢
    · exact hr
    · obtain ⟨tables, log₂, h₂, hr⟩ := hr
      refine ⟨tables, log₂, scanRoot_agree h₂ (h.mono ?_), ?_⟩
      · split_ifs at hr
        · exact Ran.length_le ((dir_searches card (wantedFile name) .tables b 0 0 _).ran _ _ _ hr)
        · rw [← hr]
      · split_ifs at hr ⊢
        · exact fatScanDir_agree hr h
        · exact hr

theorem copySectors_length (card : Card) (fileSize bufSize : ℕ) (log : Log) (secs : List ℕ) (k : Copy) :
    log.length ≤ (copySectors card fileSize bufSize log secs k).2.2.length := by
  induction secs generalizing log k with
  | nil => exact le_rfl
  | cons sec secs ih =>
    rw [copySectors]
    split_ifs
    · exact le_rfl
    · split
      · exact (length_record card log .data).symm ▸ Nat.le_succ _
      · exact (Nat.le_add_right _ 1).trans ((length_record card log .data).ge.trans (ih _ _))

theorem copySectors_agree {secs : List ℕ}
    (h : Agree card card' (copySectors card fileSize bufSize log secs k).2.2.length) :
    copySectors card' fileSize bufSize log secs k = copySectors card fileSize bufSize log secs k := by
  induction secs generalizing log k with
  | nil => rfl
  | cons sec secs ih =>
    by_cases hd : k.done = true
    · rw [copySectors, copySectors, if_pos hd, if_pos hd]
    · have hlt : log.length < (copySectors card fileSize bufSize log (sec :: secs) k).2.2.length := by
        rw [← Nat.add_one_le_iff, ← length_record card log .data, copySectors, if_neg hd]
        split
        · exact le_rfl
        · exact copySectors_length _ _ _ _ _ _
      rw [copySectors, if_neg hd, h.sdReadSector hlt sec, h.record hlt]
      rw [copySectors, if_neg hd] at h ⊢
      split
      · rfl
      · next hs =>
        rw [hs] at h
        exact ih h

theorem copyChain_length {r : Bool × Copy × Log}
    (h : copyChain card b fileSize bufSize fuel log c k = some r) : log.length ≤ r.2.2.length := by
  induction fuel generalizing log c k with
  | zero => cases h
  | succ fuel ih =>
    rw [copyChain] at h
    split_ifs at h
    · have hlen := copySectors_length card fileSize bufSize log (clusterSectors b c)
        { k with followed := k.followed ++ [c] }
      split at h
      · next he =>
        rw [he] at hlen
        cases h
        exact hlen
      · next he =>
        rw [he] at hlen
        have hrest := ih h
        rw [length_record] at hrest
        exact hlen.trans ((Nat.le_succ _).trans hrest)
    · cases h
      exact le_rfl

theorem copyChain_agree {r : Bool × Copy × Log}
    (hr : copyChain card b fileSize bufSize fuel log c k = some r) (h : Agree card card' r.2.2.length) :
    copyChain card' b fileSize bufSize fuel log c k = some r := by
  induction fuel generalizing log c k with
  | zero => cases hr
  | succ fuel ih =>
    rw [copyChain] at hr ⊢
    split_ifs at hr ⊢
    · cases he : copySectors card fileSize bufSize log (clusterSectors b c)
        { k with followed := k.followed ++ [c] } with
      | mk ok rest =>
        obtain ⟨k₁, log₁⟩ := rest
        rw [he] at hr
        have hagree (hle : log₁.length ≤ r.2.2.length) :
            copySectors card' fileSize bufSize log (clusterSectors b c)
              { k with followed := k.followed ++ [c] } = (ok, k₁, log₁) := by
          rw [← he]
          exact copySectors_agree (h.mono (by rw [he]; exact hle))
        cases ok with
        | false =>
          cases hr
          rw [hagree le_rfl]
        | true =>
          simp only at hr
          have hlt := copyChain_length hr
          rw [length_record, Nat.add_one_le_iff] at hlt
          rw [hagree hlt.le]
          simp only [h.next hlt, h.record hlt]
          exact ih hr
    · exact hr

theorem mount_agree (h : Agree card card' (mount card).2.length) : mount card' = mount card := by
  have hzero : ([] : Log).length < (mount card).2.length := by
    unfold mount
    split
    · simp [Card.record]
    · dsimp only
      split_ifs
      · simp [Card.record]
      · split <;> simp [Card.record]
  have h' := h
  unfold mount at h' ⊢
  rw [h.sdReadSector hzero, h.record hzero]
  split
  · rfl
  · next sec hs =>
    simp only [hs] at h'
    dsimp only
    split_ifs with hv
    · rfl
    · have hone : (card.record [] .boot).length < (mount card).2.length := by
        unfold mount
        simp only [hs, if_neg hv]
        split <;> simp [Card.record]
      rw [h.sdReadSector hone, h.record hone]

/-- A call depends on the reads that it makes. -/
theorem sdReadFile_agree (ho : sdReadFile card name bufSize fuel buf = some o)
    (h : Agree card card' o.log.length) : sdReadFile card' name bufSize fuel buf = some o := by
  have hlocate {b : FatBPB} {log : Log} {r : Found × Log} (hr : locate card b name fuel log = some r) :
      log.length ≤ r.2.length := by
    rw [locate_eq] at hr
    obtain ⟨x, hx, hr⟩ := Option.bind_eq_some_iff.mp hr
    have hlen := Ran.length_le ((root_searches card (wantedFile name) .root b).ran _ _ _ hx)
    split_ifs at hr with hc
    · cases hr
      exact hlen
    · exact hlen.trans (Ran.length_le ((tables_searches card b name (not_not.mp hc)).ran _ _ _ hr))
  refine sdReadFile_iff.mpr ?_
  cases sdReadFile_iff.mp ho with
  | unmounted hm =>
    refine .unmounted ((mount_agree ?_).trans hm)
    rw [hm]
    exact h
  | missing hm hl hc =>
    refine .missing ((mount_agree ?_).trans hm) (locate_agree hl h) hc
    rw [hm]
    exact h.mono (hlocate hl)
  | empty hm hl hc hs =>
    refine .empty ((mount_agree ?_).trans hm) (locate_agree hl h) hc hs
    rw [hm]
    exact h.mono (hlocate hl)
  | copied hm hl hc hs hk =>
    have hlen := copyChain_length hk
    refine .copied ((mount_agree ?_).trans hm) (locate_agree hl (h.mono hlen)) hc hs (copyChain_agree hk h)
    rw [hm]
    exact h.mono ((hlocate hl).trans hlen)

theorem Returns.agree (ho : Returns card name bufSize buf o) (h : Agree card card' o.log.length) :
    Returns card' name bufSize buf o :=
  ho.imp fun _ ho ↦ sdReadFile_agree ho h

end Prefix

section Outcomes

theorem reports_of_returns (ho : Returns card name bufSize buf o) :
    Reports card name bufSize buf ↔ ∀ k < o.log.length, card.fails k = true → o.ret = -1 := by
  constructor
  · rintro ⟨h, -⟩ k hk hf
    obtain ⟨o', ho', hret⟩ := h k ⟨card, o, ⟨rfl, fun _ _ ↦ rfl⟩, ho, hk⟩ hf
    rw [ho.unique ho', hret]
  · refine fun h ↦ ⟨fun k ⟨card', o', hagree, ho', hk⟩ hf ↦ ⟨o, ho, h k ?_ hf⟩, fun o' ho' hret ↦ ?_⟩
    · by_contra hle
      have hsame := (Returns.agree ho (hagree.mono (Nat.not_lt.mp hle))).unique ho'
      exact hle (hsame ▸ hk)
    · obtain rfl := ho.unique ho'
      have hnone (k : ℕ) (hk : k < o.log.length) : card.fails k = false := by
        rw [← Bool.not_eq_true]
        intro hf
        have hneg := h k hk hf
        omega
      exact Returns.agree ho ⟨rfl, fun k hk ↦ (hnone k hk).symm⟩

theorem reports_of_failure (ho : Returns card name bufSize buf o) (hret : o.ret = -1) :
    Reports card name bufSize buf :=
  (reports_of_returns ho).mpr fun _ _ _ ↦ hret

theorem reports_of_clear (h : ∀ n, Clear card 0 n) : Reports card name bufSize buf := by
  have hnone (k : ℕ) : card.fails k = false := by
    simpa using h (k + 1) k (Nat.lt_succ_self k)
  refine ⟨fun k _ hf ↦ ?_, fun o ho _ ↦ Returns.agree ho ⟨rfl, fun k _ ↦ (hnone k).symm⟩⟩
  rw [hnone k] at hf
  cases hf

theorem copy_returns {log₁ : Log} (hm : mount card = (some b, log))
    (hl : locate card b name fuel log = some (f, log₁)) (hc : f.cluster ≠ 0) (bufSize : ℕ) (buf : Buffer) :
    ∃ o ok, Returns card name bufSize buf o ∧
      CopyRan card (filePlan b card.image bufSize f) log₁.length ok o.log.length ∧
      (ok = true → 0 ≤ o.ret) ∧ (ok = false → o.ret = -1) := by
  by_cases hs : f.fileSize = 0
  · refine ⟨_, true, ⟨fuel, sdReadFile_iff.mpr (.empty hm hl hc hs)⟩, ?_, fun _ ↦ le_rfl, by simp⟩
    rw [filePlan, if_pos hs]
    exact .whole clear_zero
  · obtain ⟨fuel', ⟨ok, k, log₂⟩, hk⟩ := copyChain_ends card f.fileSize (mount_pos hm) log₁ f.cluster
      ⟨0, false, buf, []⟩ (Nat.zero_le bufSize)
    refine ⟨_, ok, returns_copied hm hl hc hs hk, ?_, fun h ↦ ?_, fun h ↦ ?_⟩
    · have hran := copyChain_ran (mount_pos hm) hk (copied_nil _ buf) (s := 0) rfl (Nat.sub_le _ 0)
      rw [filePlan, if_neg hs]
      exact hran
    · simp [h]
    · simp [h]

theorem filePlan_mem {image : ℕ → Sector} {q : Purpose} {i : ℕ}
    (h : (filePlan b image bufSize f)[i]? = some q) : q = .data ∨ q = .fat := by
  rw [filePlan] at h
  split_ifs at h
  · cases h
  · exact copyPlan_mem (List.mem_of_getElem? h)

theorem planned_lt {plan : List Purpose} {q : Purpose} {i : ℕ} (h : plan[i]? = some q) :
    i < plan.length :=
  (List.getElem?_eq_some_iff.mp h).1

theorem reports_copied {log₁ : Log} (hm : mount card = (some b, log))
    (hl : locate card b name fuel log = some (f, log₁)) (hc : f.cluster ≠ 0)
    (hclear : Clear card 0 log₁.length) :
    Reports card name bufSize buf ↔ CopyCaught card b bufSize f log₁.length := by
  obtain ⟨o, ok, ho, hran, hgood, hbad⟩ := copy_returns hm hl hc bufSize buf
  rw [reports_of_returns ho]
  generalize o.log.length = l at hran
  cases hran with
  | whole hcopy =>
    refine iff_of_true (fun k hk hf ↦ ?_) fun i _ hf hq ↦ ?_
    · have hall := hclear.add (by rwa [Nat.zero_add]) k hk
      rw [Nat.zero_add, hf] at hall
      cases hall
    · exact absurd (hcopy.le hf) (Nat.not_le.mpr (planned_lt hq))
  | @broken i q hq hcopy hf =>
    constructor
    · intro h j hj hfj hfat
      obtain rfl := hcopy.first hf hj hfj
      obtain rfl : q = .fat := Option.some.inj (hq.symm.trans hfat)
      have hret := h _ (Nat.lt_succ_self _) hf
      have hpos := hgood rfl
      omega
    · intro h _ _ _
      refine hbad (decide_eq_false fun hfat ↦ h i hcopy hf (hfat ▸ hq))

theorem reports_copied_lost {log₁ : Log} (hm : mount card = (some b, log))
    (hl : locate card b name fuel log = some (f, log₁)) (hc : f.cluster ≠ 0)
    {i : ℕ} (hi : i < log₁.length) (hf : card.fails i = true) :
    Reports card name bufSize buf ↔ CopyFails card b bufSize f log₁.length := by
  obtain ⟨o, ok, ho, hran, hgood, hbad⟩ := copy_returns hm hl hc bufSize buf
  rw [reports_of_returns ho]
  generalize o.log.length = l at hran
  cases hran with
  | whole hcopy =>
    refine iff_of_false (fun h ↦ ?_) ?_
    · have hret := h i (by omega) hf
      have hpos := hgood rfl
      omega
    · rintro ⟨j, hj, hfj, hq⟩
      exact absurd (hcopy.le hfj) (Nat.not_le.mpr (planned_lt hq))
  | @broken j q hq hcopy hfj =>
    constructor
    · intro h
      have hret := h i (by omega) hf
      refine ⟨j, hcopy, hfj, ?_⟩
      rcases filePlan_mem hq with rfl | rfl
      · exact hq
      · have hpos := hgood rfl
        omega
    · rintro ⟨j', hj', hfj', hq'⟩ _ _ _
      obtain rfl := hcopy.first hfj hj' hfj'
      obtain rfl : q = .data := Option.some.inj (hq.symm.trans hq')
      exact hbad rfl

theorem located_returns {log₁ : Log} (hm : mount card = (some b, log))
    (hl : locate card b name fuel log = some (f, log₁)) (bufSize : ℕ) (buf : Buffer) :
    ∃ o, Returns card name bufSize buf o ∧ log₁.length ≤ o.log.length := by
  by_cases hc : f.cluster = 0
  · exact ⟨_, returns_missing hm hl hc, le_rfl⟩
  · obtain ⟨o, ok, ho, hran, -⟩ := copy_returns hm hl hc bufSize buf
    refine ⟨o, ho, ?_⟩
    generalize o.log.length = l at hran
    cases hran <;> omega

end Outcomes

section Stages

theorem mount_cases (card : Card) :
    Clear card 0 (mount (sound card.image)).2.length ∧ mount card = mount (sound card.image) ∨
      (mount card).1 = none ∧ ¬ Clear card 0 (mount (sound card.image)).2.length := by
  by_cases hclear : Clear card 0 (mount (sound card.image)).2.length
  · refine .inl ⟨hclear, mount_agree ⟨rfl, fun k hk ↦ ?_⟩⟩
    rw [← Nat.zero_add k]
    exact hclear k hk
  · refine .inr ⟨?_, hclear⟩
    by_contra hsome
    refine hclear ?_
    unfold mount at hsome ⊢
    cases hf : card.fails 0 with
    | true => simp [Card.sdReadSector, hf] at hsome
    | false =>
      simp only [Card.sdReadSector, sound, List.length_nil, hf, Bool.false_eq_true, if_false,
        Card.record, List.nil_append] at hsome ⊢
      by_cases hv : fatFindVbr (card.image 0) = 0
      · simp only [if_pos hv]
        exact clear_one hf
      · simp only [if_neg hv, List.length_singleton] at hsome ⊢
        cases hf₁ : card.fails 1 with
        | true => simp [hf₁] at hsome
        | false => exact (clear_one hf).add (clear_one hf₁)

theorem locate_root {log₁ : Log}
    (h : scanRoot card (wantedFile name) .root b fuel log = some (f, log₁)) (hc : f.cluster ≠ 0) :
    locate card b name fuel log = some (f, log₁) := by
  rw [locate_eq, h, Option.bind_some, if_pos hc]

theorem searchTables_mono {fuel' : ℕ} {r : Found × Log} (h : searchTables card b name file fuel log = some r)
    (hf : fuel ≤ fuel') : searchTables card b name file fuel' log = some r := by
  obtain ⟨x, hx, h⟩ := Option.bind_eq_some_iff.mp h
  rw [searchTables, scanRoot_mono hx hf, Option.bind_some]
  split_ifs at h ⊢
  · exact fatScanDir_mono h hf
  · exact h

theorem locate_tables {log₁ : Log} {fuel' : ℕ} {r : Found × Log}
    (h : scanRoot card (wantedFile name) .root b fuel log = some (f, log₁)) (hc : f.cluster = 0)
    (ht : searchTables card b name f fuel' log₁ = some r) :
    locate card b name (max fuel fuel') log = some r := by
  rw [locate_eq, scanRoot_mono h (le_max_left _ _), Option.bind_some, if_neg (not_not_intro hc)]
  exact searchTables_mono ht (le_max_right _ _)

theorem searchTables_of_returns {log₁ : Log} (hm : mount card = (some b, log))
    (h : scanRoot card (wantedFile name) .root b fuel log = some (f, log₁)) (hc : f.cluster = 0)
    (ho : Returns card name bufSize buf o) : ∃ fuel' r, searchTables card b name f fuel' log₁ = some r := by
  obtain ⟨fuel', ho⟩ := ho
  obtain ⟨log₂, hl⟩ := (sdReadFile_iff.mp ho).located hm
  rw [locate_eq] at hl
  obtain ⟨⟨f', log₁'⟩, hr, ht⟩ := Option.bind_eq_some_iff.mp hl
  have h₁ := scanRoot_mono h (le_max_left fuel fuel')
  have h₂ := scanRoot_mono hr (le_max_right fuel fuel')
  obtain ⟨rfl, rfl⟩ := Prod.mk.inj (Option.some.inj (h₁.symm.trans h₂))
  rw [if_neg (not_not_intro hc)] at ht
  exact ⟨fuel', _, ht⟩

section Clean

variable {log₁ : Log}

theorem reports_tables (hm : mount card = (some b, log)) (hclear : Clear card 0 log.length)
    (h : scanRoot card (wantedFile name) .root b fuel log = some (f, log ++ clean .root n))
    (hs : RootSearched b card.image (wantedFile name) n f) (hn : Clear card log.length n)
    (hc : f.cluster = 0) :
    Reports card name bufSize buf ↔ Caught card b name bufSize log.length := by
  have hroot := root_searches card (wantedFile name) .root b
  have htables := tables_searches card b name hc
  have hat : (log ++ clean .root n).length = log.length + n := by simp
  have hbefore : Clear card 0 (log.length + n) := hclear.add (by rwa [Nat.zero_add])
  -- What is left of the condition.
  have hcaught : Caught card b name bufSize log.length ↔
      ∀ m g, TablesSearched b card.image name f m g → Clear card (log.length + n) m → g.cluster ≠ 0 →
        CopyCaught card b bufSize g (log.length + n + m) := by
    refine ⟨fun h ↦ h.tables n f hs hn hc, fun h ↦ ⟨?_, ?_, ?_⟩⟩
    · intro n' f' hs' _ hc'
      obtain ⟨-, rfl⟩ := hroot.unique _ _ _ _ hs hs'
      exact absurd hc hc'
    · intro n' f' hs' _ _
      obtain ⟨rfl, rfl⟩ := hroot.unique _ _ _ _ hs hs'
      exact h
    · intro i hi _ hf
      exact absurd (hn.le hf) (Nat.not_le.mpr (hi n f hs))
  rw [hcaught]
  by_cases hret : ∃ fuel' r, searchTables card b name f fuel' (log ++ clean .root n) = some r
  · obtain ⟨fuel', ⟨g, log₂⟩, ht⟩ := hret
    have hl := locate_tables h hc ht
    cases htables.ran _ _ _ ht with
    | @whole m _ hs' hm' =>
      rw [hat] at hm'
      by_cases hg : g.cluster = 0
      · refine iff_of_true (reports_of_failure (returns_missing hm hl hg) rfl) fun m' g' hs'' _ hg' ↦ ?_
        obtain ⟨-, rfl⟩ := htables.unique _ _ _ _ hs' hs''
        exact absurd hg hg'
      · have hlen : ((log ++ clean .root n) ++ clean .tables m).length = log.length + n + m := by
          simp [Nat.add_assoc]
        rw [reports_copied hm hl hg (by rw [hlen]; exact hbefore.add (by rwa [Nat.zero_add])), hlen]
        refine ⟨fun h m' g' hs'' _ _ ↦ ?_, fun h ↦ h m g hs' hm' hg⟩
        obtain ⟨rfl, rfl⟩ := htables.unique _ _ _ _ hs' hs''
        exact h
    | broken hlost hs' _ hf =>
      rw [hat] at hf
      refine iff_of_true (reports_of_failure (returns_missing hm hl hlost) rfl) fun m g hs'' hm' _ ↦ ?_
      exact absurd (hm'.le hf) (Nat.not_le.mpr (hs' m g hs''))
  · have hnone (fuel' : ℕ) : searchTables card b name f fuel' (log ++ clean .root n) = none :=
      Option.eq_none_iff_forall_ne_some.mpr fun r hr ↦ hret ⟨fuel', r, hr⟩
    refine iff_of_true (reports_of_clear fun k ↦ ?_) fun m g hs' ↦
      absurd hs' (htables.unplanned hnone)
    have hrest := htables.clear hnone k
    rw [hat] at hrest
    exact (hbefore.add (by rwa [Nat.zero_add])).mono (Nat.le_add_left _ _)

end Clean

/-- The call makes the read that fails in the root directory, even if it does not return. -/
theorem makes_lost {i : ℕ} (hm : mount card = (some b, log))
    (hs : ∀ n f, RootSearched b card.image (wantedFile name) n f → i < n)
    (hi : Clear card log.length i) (hf : card.fails (log.length + i) = true) (bufSize : ℕ) (buf : Buffer) :
    Makes card name bufSize buf (log.length + i) := by
  -- The card on which every read behind this one fails as well.
  let card' : Card := ⟨card.image, fun k ↦ card.fails k || decide (log.length + i < k)⟩
  have hagree : Agree card card' (log.length + i + 1) := by
    refine ⟨rfl, fun k hk ↦ ?_⟩
    have hnot : ¬ log.length + i < k := by omega
    simp [card', hnot]
  have hm' : mount card' = (some b, log) := by
    rw [← hm]
    refine mount_agree (hagree.mono ?_)
    rw [hm]
    change log.length ≤ _
    omega
  have hi' : Clear card' log.length i := fun j hj ↦ (hagree.2 _ (by omega)).trans (hi j hj)
  have hf' : card'.fails (log.length + i) = true := (hagree.2 _ (by omega)).trans hf
  obtain ⟨fuel, f, rfl, hr⟩ := (root_searches card' (wantedFile name) .root b).run_broken hs hi' hf'
  have hat : (log ++ (clean .root i ++ ([⟨.root, true⟩] : Log))).length = log.length + i + 1 := by
    simp [Nat.add_assoc]
  have htables : Searches card' .tables (TablesSearched b card'.image name notFound) (·.cluster = 0)
      (searchTables card' b name notFound) := tables_searches card' b name rfl
  have hret : ∃ r, searchTables card' b name notFound 1 (log ++ (clean .root i ++ [⟨.root, true⟩])) = some r := by
    refine Option.ne_none_iff_exists'.mp fun hnone ↦ ?_
    have hone := (htables.endless _ _ hnone).1 0 Nat.one_pos
    rw [hat] at hone
    simp [card'] at hone
  obtain ⟨⟨g, log₂⟩, ht⟩ := hret
  have hlen := Ran.length_le (htables.ran _ _ _ ht)
  obtain ⟨o, ho, hle⟩ := located_returns hm' (locate_tables hr rfl ht) bufSize buf
  rw [hat, Nat.add_one_le_iff] at hlen
  exact ⟨card', o, hagree.mono (Nat.le_succ _), ho, hlen.trans_le hle⟩

theorem reports_lost {i : ℕ} (hm : mount card = (some b, log))
    (h : scanRoot card (wantedFile name) .root b fuel log =
      some (notFound, log ++ (clean .root i ++ [⟨.root, true⟩])))
    (hs : ∀ n f, RootSearched b card.image (wantedFile name) n f → i < n)
    (hi : Clear card log.length i) (hf : card.fails (log.length + i) = true) :
    Reports card name bufSize buf ↔ Caught card b name bufSize log.length := by
  have htables : Searches card .tables (TablesSearched b card.image name notFound) (·.cluster = 0)
      (searchTables card b name notFound) := tables_searches card b name rfl
  have hat : (log ++ (clean .root i ++ ([⟨.root, true⟩] : Log))).length = log.length + i + 1 := by
    simp [Nat.add_assoc]
  have hnot {n : ℕ} {f : Found} (hs' : RootSearched b card.image (wantedFile name) n f)
      (hn : Clear card log.length n) : False :=
    absurd (hn.le hf) (Nat.not_le.mpr (hs n f hs'))
  have hcaught : Caught card b name bufSize log.length ↔
      (∃ j, (∀ m g, TablesSearched b card.image name notFound m g → j < m) ∧
        card.fails (log.length + i + 1 + j) = true) ∨
      ∃ m g, TablesSearched b card.image name notFound m g ∧
        (g.cluster = 0 ∨ CopyFails card b bufSize g (log.length + i + 1 + m)) := by
    refine ⟨fun h ↦ h.lost i hs hi hf, fun h ↦ ⟨?_, ?_, ?_⟩⟩
    · intro n f hs' hn
      exact (hnot hs' hn).elim
    · intro n f hs' hn
      exact (hnot hs' hn).elim
    · intro i' _ hi' hf'
      obtain rfl := hi.first hf hi' hf'
      exact h
  rw [hcaught]
  by_cases hret : ∃ fuel' r, searchTables card b name notFound fuel'
      (log ++ (clean .root i ++ [⟨.root, true⟩])) = some r
  · obtain ⟨fuel', ⟨g, log₂⟩, ht⟩ := hret
    have hl := locate_tables h rfl ht
    cases htables.ran _ _ _ ht with
    | @whole m _ hs' hm' =>
      rw [hat] at hm'
      by_cases hg : g.cluster = 0
      · exact iff_of_true (reports_of_failure (returns_missing hm hl hg) rfl) (.inr ⟨m, g, hs', .inl hg⟩)
      · have hlen : ((log ++ (clean .root i ++ ([⟨.root, true⟩] : Log))) ++ clean .tables m).length =
            log.length + i + 1 + m := by
          rw [List.length_append, hat, length_clean]
        rw [reports_copied_lost hm hl hg (i := log.length + i) (by omega) hf, hlen]
        refine ⟨fun hfails ↦ .inr ⟨m, g, hs', .inr hfails⟩, ?_⟩
        rintro (⟨j, hj, hfj⟩ | ⟨m', g', hs'', hrest⟩)
        · exact absurd (hm'.le hfj) (Nat.not_le.mpr (hj m g hs'))
        · obtain ⟨rfl, rfl⟩ := htables.unique _ _ _ _ hs' hs''
          exact hrest.resolve_left hg
    | @broken j _ hlost hs' _ hfj =>
      rw [hat] at hfj
      exact iff_of_true (reports_of_failure (returns_missing hm hl hlost) rfl) (.inl ⟨j, hs', hfj⟩)
  · have hnone (fuel' : ℕ) : searchTables card b name notFound fuel'
        (log ++ (clean .root i ++ [⟨.root, true⟩])) = none :=
      Option.eq_none_iff_forall_ne_some.mpr fun r hr ↦ hret ⟨fuel', r, hr⟩
    refine iff_of_false (fun hreports ↦ ?_) ?_
    · obtain ⟨o, ho, -⟩ := hreports.1 _ (makes_lost hm hs hi hf bufSize buf) hf
      exact hret (searchTables_of_returns hm h rfl ho)
    · rintro (⟨j, -, hfj⟩ | ⟨m, g, hs', -⟩)
      · have hclear := htables.clear hnone (j + 1)
        rw [hat] at hclear
        exact absurd (hclear.le hfj) (Nat.not_succ_le_self j)
      · exact htables.unplanned hnone hs'

theorem reports_mounted (hm : mount card = (some b, log)) (hclear : Clear card 0 log.length) :
    Reports card name bufSize buf ↔ Caught card b name bufSize log.length := by
  have hroot := root_searches card (wantedFile name) .root b
  by_cases hret : ∃ fuel r, scanRoot card (wantedFile name) .root b fuel log = some r
  · obtain ⟨fuel, ⟨f, log₁⟩, hr⟩ := hret
    cases hroot.ran _ _ _ hr with
    | @whole n _ hs hn =>
      by_cases hc : f.cluster = 0
      · exact reports_tables hm hclear hr hs hn hc
      · have hlen : (log ++ clean .root n).length = log.length + n := by simp
        rw [reports_copied hm (locate_root hr hc) hc
          (by rw [hlen]; exact hclear.add (by rwa [Nat.zero_add])), hlen]
        refine ⟨fun h ↦ ⟨?_, ?_, ?_⟩, fun h ↦ h.root n f hs hn hc⟩
        · intro n' f' hs' _ _
          obtain ⟨rfl, rfl⟩ := hroot.unique _ _ _ _ hs hs'
          exact h
        · intro n' f' hs' _ hc'
          obtain ⟨-, rfl⟩ := hroot.unique _ _ _ _ hs hs'
          exact absurd hc' hc
        · intro i hi _ hf
          exact absurd (hn.le hf) (Nat.not_le.mpr (hi n f hs))
    | broken hlost hs hi hf =>
      obtain rfl : f = notFound := hlost
      exact reports_lost hm hr hs hi hf
  · have hnone (fuel : ℕ) : scanRoot card (wantedFile name) .root b fuel log = none :=
      Option.eq_none_iff_forall_ne_some.mpr fun r hr ↦ hret ⟨fuel, r, hr⟩
    have hall (n : ℕ) : Clear card log.length n := hroot.clear hnone n
    refine iff_of_true (reports_of_clear fun n ↦ ?_) ⟨?_, ?_, ?_⟩
    · exact (hclear.add (by rw [Nat.zero_add]; exact hall n)).mono (Nat.le_add_left _ _)
    · exact fun n f hs ↦ absurd hs (hroot.unplanned hnone)
    · exact fun n f hs ↦ absurd hs (hroot.unplanned hnone)
    · exact fun i _ _ hf ↦ absurd ((hall (i + 1)).le hf) (Nat.not_succ_le_self i)

/-- The call reports its read errors exactly in these cases, whether it returns or not. -/
theorem sd_errors_iff (card : Card) (name : List UInt8) (bufSize : ℕ) (buf : Buffer) :
    Reports card name bufSize buf ↔ ∀ b log, mount (sound card.image) = (some b, log) →
      Clear card 0 log.length → Caught card b name bufSize log.length := by
  have hmissing {log : Log} (hm : mount card = (none, log)) : Reports card name bufSize buf :=
    reports_of_failure ⟨0, sdReadFile_iff.mpr (.unmounted hm)⟩ rfl
  rcases mount_cases card with ⟨hclear, hm⟩ | ⟨hm, hbroken⟩
  · cases hsound : mount (sound card.image) with
    | mk found log =>
      rw [hsound] at hm hclear
      cases found with
      | none =>
        refine iff_of_true (hmissing hm) fun b log h ↦ ?_
        cases h
      | some b =>
        rw [reports_mounted hm hclear]
        constructor
        · intro h b' log' hb _
          cases hb
          exact h
        · exact fun h ↦ h b log rfl hclear
  · refine iff_of_true (hmissing (Prod.ext hm rfl)) fun b log h hclear ↦ ?_
    rw [h] at hbroken
    exact absurd hclear hbroken

end Stages

section Examples

/-- A file of 600 bytes in the clusters 2 and 3. -/
def longFile : ℕ → Sector
  | 0 => OneFile.bootSector
  | 1 => fun k ↦ if k = 4 then 3 else if k = 6 ∨ k = 7 then 0xFF else 0
  | 2 => fun k ↦
    if k < 11 then (ascii "ALUNOS  TBL").getD k 0
    else if k = 26 ∨ k = 29 then 2
    else if k = 28 then 88
    else 0
  | _ => fun _ ↦ 7

/-- The card fails once, in the given read. -/
def failing (read : ℕ) : Card := ⟨longFile, fun k ↦ k == read⟩

def readAlunos (card : Card) : Option Outcome :=
  sdReadFile card (ascii "alunos.tbl") 1024 4 (fun _ ↦ 0)

/-- The second data sector cannot be read. -/
example : Reports (failing 4) (ascii "alunos.tbl") 1024 (fun _ ↦ 0) := by
  have hret : (readAlunos (failing 4)).map Outcome.ret = some (-1) := by decide +kernel
  obtain ⟨o, ho, hr⟩ := Option.map_eq_some_iff.mp hret
  exact reports_of_failure ⟨4, ho⟩ hr

/-- The FAT sector cannot be read after the first cluster: 512 bytes of 600 are reported
as the whole file. -/
theorem fat_error_shortens_file : ∃ o o', readAlunos (failing 3) = some o ∧
    readAlunos (sound longFile) = some o' ∧ o.log[3]? = some ⟨.fat, true⟩ ∧ o.ret = 512 ∧ o'.ret = 600 ∧
    ¬ Reports (failing 3) (ascii "alunos.tbl") 1024 (fun _ ↦ 0) := by
  have hlog : (readAlunos (failing 3)).map (fun o ↦ (o.log, o.ret)) = some ([⟨.boot, false⟩,
      ⟨.root, false⟩, ⟨.data, false⟩, ⟨.fat, true⟩], 512) := by decide +kernel
  have hfull : (readAlunos (sound longFile)).map Outcome.ret = some 600 := by decide +kernel
  obtain ⟨o, ho, hl⟩ := Option.map_eq_some_iff.mp hlog
  obtain ⟨o', ho', hr'⟩ := Option.map_eq_some_iff.mp hfull
  obtain ⟨hl, hr⟩ := Prod.mk.inj hl
  refine ⟨o, o', ho, ho', by rw [hl]; rfl, hr, hr', fun h ↦ ?_⟩
  have hret := (reports_of_returns ⟨4, ho⟩).mp h 3 (by rw [hl]; decide) rfl
  rw [hr] at hret
  cases hret

end Examples

end FpgaDatabase.Firmware.SdErrors
