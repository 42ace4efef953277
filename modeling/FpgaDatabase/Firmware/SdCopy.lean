import FpgaDatabase.Firmware.SdSearch

namespace FpgaDatabase.Firmware.SdCopy

open SdDriver SdSearch Library.Linked

variable {image : ℕ → Sector} {b : FatBPB} {fileSize bufSize fuel : ℕ} {data : List UInt8}
  {k : Copy} {log : Log} {c : ℕ} {cs : List ℕ}

def sectorBytes (image : ℕ → Sector) (sec : ℕ) : List UInt8 := (List.range 512).map (image sec)

/-- The copy loop after the bytes `data` have passed by. It stops one byte late: only a
byte that is left over sets the flag. -/
structure Copied (limit : ℕ) (data : List UInt8) (k : Copy) : Prop where
  bytesRead : k.bytesRead = min limit data.length
  done : k.done = true ↔ limit < data.length
  buf : ∀ i < k.bytesRead, data[i]? = some (k.buf i)

theorem copied_nil (limit : ℕ) (buf : Buffer) : Copied limit [] ⟨0, false, buf, []⟩ :=
  ⟨by simp, by simp, by simp⟩

theorem Copied.skip {limit : ℕ} (h : Copied limit data k) (hd : k.done = true)
    (more : List UInt8) : Copied limit (data ++ more) k := by
  have hlt := h.done.mp hd
  have hb := h.bytesRead
  refine ⟨?_, ?_, ?_⟩
  · rw [hb, List.length_append]
    omega
  · rw [hd, List.length_append]
    simp only [true_iff]
    omega
  · intro i hi
    rw [List.getElem?_append_left (by omega)]
    exact h.buf i hi

theorem copyBytes_copied (s : Sector) (is : List ℕ) (h : Copied (min fileSize bufSize) data k) :
    Copied (min fileSize bufSize) (data ++ is.map s) (copyBytes fileSize bufSize s is k) := by
  induction is generalizing data k with
  | nil => simpa [copyBytes] using h
  | cons i is ih =>
    have hb := h.bytesRead
    rw [copyBytes]
    split_ifs with hd hfull
    · exact h.skip hd _
    · have hn : min fileSize bufSize ≤ data.length := by omega
      refine ⟨?_, ?_, ?_⟩
      · simp only [List.length_append, List.length_map, List.length_cons]
        omega
      · simp only [List.length_append, List.length_map, List.length_cons, true_iff]
        omega
      · intro j hj
        rw [List.getElem?_append_left (by simp only at hj; omega)]
        exact h.buf j hj
    · have hlen : k.bytesRead = data.length := by omega
      rw [List.map_cons, List.append_cons]
      apply ih
      refine ⟨?_, ?_, ?_⟩
      · rw [List.length_append, List.length_singleton]
        simp only
        omega
      · rw [List.length_append, List.length_singleton]
        simp only [hd, Bool.false_eq_true, false_iff]
        omega
      · intro j hj
        simp only [hlen] at hj ⊢
        by_cases he : j = data.length
        · rw [he, Function.update_self, List.getElem?_append_right le_rfl]
          simp
        · rw [Function.update_of_ne he, List.getElem?_append_left (by omega)]
          exact h.buf j (by omega)

theorem copyBytes_le (fileSize : ℕ) (s : Sector) (is : List ℕ) (k : Copy) (h : k.bytesRead ≤ bufSize) :
    k.bytesRead ≤ (copyBytes fileSize bufSize s is k).bytesRead ∧
      (copyBytes fileSize bufSize s is k).bytesRead ≤ bufSize := by
  induction is generalizing k with
  | nil => exact ⟨le_rfl, h⟩
  | cons i is ih =>
    rw [copyBytes]
    split_ifs with hd hfull
    · exact ⟨le_rfl, h⟩
    · exact ⟨le_rfl, h⟩
    · obtain ⟨h₁, h₂⟩ := ih { k with
        bytesRead := k.bytesRead + 1, buf := Function.update k.buf k.bytesRead (s i) }
        (by simp only; omega)
      exact ⟨(Nat.le_succ _).trans h₁, h₂⟩

theorem copyBytes_followed (s : Sector) (is : List ℕ) (k : Copy) :
    (copyBytes fileSize bufSize s is k).followed = k.followed := by
  induction is generalizing k with
  | nil => rfl
  | cons i is ih =>
    rw [copyBytes]
    split_ifs
    · rfl
    · rfl
    · exact ih _

theorem copySectors_followed (fileSize bufSize : ℕ) (card : Card) (log : Log) (secs : List ℕ) (k : Copy) :
    (copySectors card fileSize bufSize log secs k).2.1.followed = k.followed := by
  induction secs generalizing log k with
  | nil => rfl
  | cons sec secs ih =>
    rw [copySectors]
    split_ifs
    · rfl
    · split
      · rfl
      · rw [ih, copyBytes_followed]

theorem copySectors_le (card : Card) (fileSize : ℕ) (log : Log) (secs : List ℕ) (k : Copy) (h : k.bytesRead ≤ bufSize) :
    k.bytesRead ≤ (copySectors card fileSize bufSize log secs k).2.1.bytesRead ∧
      (copySectors card fileSize bufSize log secs k).2.1.bytesRead ≤ bufSize := by
  induction secs generalizing log k with
  | nil => exact ⟨le_rfl, h⟩
  | cons sec secs ih =>
    rw [copySectors]
    split_ifs
    · exact ⟨le_rfl, h⟩
    · split
      · exact ⟨le_rfl, h⟩
      · next s _ =>
        obtain ⟨h₁, h₂⟩ := copyBytes_le fileSize s (List.range 512) k h
        obtain ⟨h₃, h₄⟩ := ih (card.record log .data) _ h₂
        exact ⟨h₁.trans h₃, h₄⟩

theorem copySectors_sound (image : ℕ → Sector) (log : Log) (secs : List ℕ)
    (h : Copied (min fileSize bufSize) data k) :
    ∃ k' log', copySectors (sound image) fileSize bufSize log secs k = (true, k', log') ∧
      Copied (min fileSize bufSize) (data ++ secs.flatMap (sectorBytes image)) k' ∧
      k'.followed = k.followed := by
  induction secs generalizing log data k with
  | nil => exact ⟨k, log, rfl, by simpa using h, rfl⟩
  | cons sec secs ih =>
    rw [copySectors]
    split_ifs with hd
    · exact ⟨k, log, rfl, h.skip hd _, rfl⟩
    · rw [List.flatMap_cons, ← List.append_assoc]
      obtain ⟨k', log', he, hk, hf⟩ := ih ((sound image).record log .data)
        (copyBytes_copied (image sec) (List.range 512) h)
      exact ⟨k', log', he, hk, hf.trans (copyBytes_followed _ _ _)⟩

def clusterBytes (b : FatBPB) (image : ℕ → Sector) (cs : List ℕ) : List UInt8 :=
  (cs.flatMap (clusterSectors b)).flatMap (sectorBytes image)

theorem clusterBytes_cons (c : ℕ) (cs : List ℕ) : clusterBytes b image (c :: cs) =
    (clusterSectors b c).flatMap (sectorBytes image) ++ clusterBytes b image cs := by
  rw [clusterBytes, List.flatMap_cons, List.flatMap_append]
  rfl

theorem length_clusterBytes (b : FatBPB) (image : ℕ → Sector) (cs : List ℕ) :
    (clusterBytes b image cs).length = cs.length * (b.sectorsPerCluster * 512) := by
  induction cs with
  | nil => simp [clusterBytes]
  | cons c cs ih =>
    rw [clusterBytes_cons, List.length_append, ih, List.length_cons, Nat.add_mul, Nat.one_mul,
      Nat.add_comm]
    congr 1
    simp [clusterSectors, sectorBytes, List.length_flatMap, Function.comp_def]

theorem copyChain_succ (card : Card) (fuel : ℕ) (log : Log) (c : ℕ) (k : Copy)
    (hd : k.done = false) (hv : fatClusValid b c = true) :
    copyChain card b fileSize bufSize (fuel + 1) log c k =
      match copySectors card fileSize bufSize log (clusterSectors b c)
        { k with followed := k.followed ++ [c] } with
      | (false, k', log') => some (false, k', log')
      | (true, k', log') =>
        copyChain card b fileSize bufSize fuel (card.record log' .fat)
          (fatNextCluster b card log' c) k' := by
  rw [copyChain, hd, hv]
  rfl

theorem copyChain_stop (card : Card) (fuel : ℕ) (log : Log) (c : ℕ) (k : Copy)
    (h : k.done = true ∨ fatClusValid b c = false) :
    copyChain card b fileSize bufSize (fuel + 1) log c k = some (true, k, log) := by
  rw [copyChain, if_neg]
  rcases h with h | h <;> simp [h]

theorem copyChain_followed {card : Card} {fuel : ℕ} {log : Log} {r : Bool × Copy × Log}
    (h : copyChain card b fileSize bufSize fuel log c k = some r) :
    ∃ visited, r.2.1.followed = k.followed ++ visited ∧
      (visited = [] ∨ visited.head? = some c) := by
  induction fuel generalizing log c k with
  | zero => cases h
  | succ fuel ih =>
    simp only [copyChain] at h
    split at h
    · have hf := copySectors_followed fileSize bufSize card log
        (clusterSectors b c) { k with followed := k.followed ++ [c] }
      split at h
      · next k' log' he =>
        rw [he] at hf
        cases h
        exact ⟨[c], hf, .inr rfl⟩
      · next k' log' he =>
        rw [he] at hf
        obtain ⟨visited, hv, -⟩ := ih h
        refine ⟨c :: visited, ?_, .inr rfl⟩
        rw [hv, show k'.followed = _ from hf]
        simp
    · cases h
      exact ⟨[], by simp, .inl rfl⟩

theorem copyChain_le {card : Card} {fuel : ℕ} {log : Log} {r : Bool × Copy × Log}
    (h : copyChain card b fileSize bufSize fuel log c k = some r) (hk : k.bytesRead ≤ bufSize) :
    r.2.1.bytesRead ≤ bufSize := by
  induction fuel generalizing log c k with
  | zero => cases h
  | succ fuel ih =>
    simp only [copyChain] at h
    split at h
    · have hle := (copySectors_le card fileSize log (clusterSectors b c)
        { k with followed := k.followed ++ [c] } hk).2
      split at h
      · next he =>
        rw [he] at hle
        cases h
        exact hle
      · next he =>
        rw [he] at hle
        exact ih h hle
    · cases h
      exact hk

/-- On a sound card the loop copies the chain, as far as it is wanted. -/
theorem copyChain_sound (log : Log) (hc : Chain (nextOf b image) (fatClusValid b) c cs)
    (hv : fatClusValid b c = true) (h : Copied (min fileSize bufSize) data k)
    (hd : k.done = false) :
    ∃ fuel k' log' visited, copyChain (sound image) b fileSize bufSize fuel log c k =
        some (true, k', log') ∧
      Copied (min fileSize bufSize) (data ++ clusterBytes b image cs) k' ∧
      k'.followed = k.followed ++ c :: visited ∧ c :: visited <+: cs := by
  induction hc generalizing data k log with
  | @last c hn =>
    have hk : Copied (min fileSize bufSize) data { k with followed := k.followed ++ [c] } :=
      ⟨h.bytesRead, h.done, h.buf⟩
    obtain ⟨k', log', he, hk', hf⟩ := copySectors_sound image log (clusterSectors b c) hk
    refine ⟨2, k', (sound image).record log' .fat, [], ?_, ?_, hf, List.prefix_rfl⟩
    · rw [copyChain_succ _ _ _ _ _ hd hv, he]
      exact copyChain_stop _ _ _ _ _ (.inr hn)
    · simpa [clusterBytes] using hk'
  | @link c cs hn hc ih =>
    have hk : Copied (min fileSize bufSize) data { k with followed := k.followed ++ [c] } :=
      ⟨h.bytesRead, h.done, h.buf⟩
    obtain ⟨k', log', he, hk', hf⟩ := copySectors_sound image log (clusterSectors b c) hk
    rw [clusterBytes_cons, ← List.append_assoc]
    cases hd' : k'.done with
    | true =>
      refine ⟨2, k', (sound image).record log' .fat, [], ?_, hk'.skip hd' _, hf, by simp⟩
      rw [copyChain_succ _ _ _ _ _ hd hv, he]
      exact copyChain_stop _ _ _ _ _ (.inl hd')
    | false =>
      obtain ⟨fuel, k'', log'', visited, he', hk'', hf', hp⟩ :=
        ih ((sound image).record log' .fat) hn hk' hd'
      refine ⟨fuel + 1, k'', log'', nextOf b image c :: visited, ?_, hk'', ?_, ?_⟩
      · rw [copyChain_succ _ _ _ _ _ hd hv, he]
        exact he'
      · rw [hf', hf]
        simp
      · exact List.cons_prefix_cons.mpr ⟨rfl, hp⟩

end FpgaDatabase.Firmware.SdCopy
