import FpgaDatabase.Firmware.SdDriver
import FpgaDatabase.Library.Linked

namespace FpgaDatabase.Firmware.SdSearch

open SdDriver Library.Linked

section Fuel

variable {card : Card} {w : Wanted} {purpose : Purpose} {b : FatBPB} {name : List UInt8}
  {fileSize bufSize fuel fuel' : ℕ} {log : Log} {c : ℕ} {buf : Buffer}

theorem scanChain_mono {r : Found × Log} (h : scanChain card w purpose b fuel log c = some r)
    (hf : fuel ≤ fuel') : scanChain card w purpose b fuel' log c = some r := by
  induction fuel generalizing fuel' log c with
  | zero => cases h
  | succ fuel ih =>
    obtain ⟨fuel', rfl⟩ := Nat.exists_eq_succ_of_ne_zero (show fuel' ≠ 0 by omega)
    simp only [scanChain] at h ⊢
    split at h
    · exact h
    · split at h
      · next hv =>
        rw [if_pos hv]
        exact ih h (by omega)
      · next hv =>
        rw [if_neg hv]
        exact h

theorem fatScanDir_mono {r : Found × Log} {s m : ℕ}
    (h : fatScanDir card w purpose b fuel log s m c = some r) (hf : fuel ≤ fuel') :
    fatScanDir card w purpose b fuel' log s m c = some r := by
  unfold fatScanDir at h ⊢
  split at h
  · next hc =>
    rw [if_pos hc]
    exact scanChain_mono h hf
  · next hc =>
    rw [if_neg hc]
    exact h

theorem scanRoot_mono {r : Found × Log} (h : scanRoot card w purpose b fuel log = some r)
    (hf : fuel ≤ fuel') : scanRoot card w purpose b fuel' log = some r := by
  unfold scanRoot at h ⊢
  split at h
  · next hb =>
    rw [if_pos hb]
    exact fatScanDir_mono h hf
  · next hb =>
    rw [if_neg hb]
    exact fatScanDir_mono h hf

theorem locate_eq_some_iff {r : Found × Log} : locate card b name fuel log = some r ↔
    ∃ file log₁, scanRoot card (wantedFile name) .root b fuel log = some (file, log₁) ∧
      if file.cluster ≠ 0 then (file, log₁) = r
      else ∃ tables log₂, scanRoot card wantedTables .tables b fuel log₁ = some (tables, log₂) ∧
        if tables.cluster ≠ 0 then
          fatScanDir card (wantedFile name) .tables b fuel log₂ 0 0 tables.cluster = some r
        else (file, log₂) = r := by
  unfold locate
  constructor
  · intro h
    obtain ⟨⟨file, log₁⟩, h₁, h⟩ := Option.bind_eq_some_iff.mp h
    refine ⟨file, log₁, h₁, ?_⟩
    simp only at h
    split_ifs at h ⊢
    · exact Option.some.inj h
    · obtain ⟨⟨tables, log₂⟩, h₂, h⟩ := Option.bind_eq_some_iff.mp h
      refine ⟨tables, log₂, h₂, ?_⟩
      simp only at h
      split_ifs at h ⊢
      · exact h
      · exact Option.some.inj h
  · rintro ⟨file, log₁, h₁, h⟩
    simp only [h₁, Option.bind_eq_bind, Option.bind_some]
    split_ifs at h ⊢
    · rw [h]
    · obtain ⟨tables, log₂, h₂, h⟩ := h
      simp only [h₂, Option.bind_some]
      split_ifs at h ⊢
      · exact h
      · rw [h]

theorem locate_mono {r : Found × Log} (h : locate card b name fuel log = some r)
    (hf : fuel ≤ fuel') : locate card b name fuel' log = some r := by
  obtain ⟨file, log₁, h₁, h⟩ := locate_eq_some_iff.mp h
  refine locate_eq_some_iff.mpr ⟨file, log₁, scanRoot_mono h₁ hf, ?_⟩
  split_ifs at h ⊢
  · exact h
  · obtain ⟨tables, log₂, h₂, h⟩ := h
    refine ⟨tables, log₂, scanRoot_mono h₂ hf, ?_⟩
    split_ifs at h ⊢
    · exact fatScanDir_mono h hf
    · exact h

theorem copyChain_mono {r : Bool × Copy × Log} {k : Copy}
    (h : copyChain card b fileSize bufSize fuel log c k = some r) (hf : fuel ≤ fuel') :
    copyChain card b fileSize bufSize fuel' log c k = some r := by
  induction fuel generalizing fuel' log c k with
  | zero => cases h
  | succ fuel ih =>
    obtain ⟨fuel', rfl⟩ := Nat.exists_eq_succ_of_ne_zero (show fuel' ≠ 0 by omega)
    simp only [copyChain] at h ⊢
    split at h
    · next hv =>
      rw [if_pos hv]
      split at h
      · exact h
      · exact ih h (by omega)
    · next hv =>
      rw [if_neg hv]
      exact h

/-- How a call can come to its end. -/
inductive Ends (card : Card) (name : List UInt8) (bufSize fuel : ℕ) (buf : Buffer) : Outcome → Prop
  | unmounted {log : Log} (hm : mount card = (none, log)) :
      Ends card name bufSize fuel buf ⟨-1, buf, log, notFound, []⟩
  | missing {b : FatBPB} {log log₁ : Log} {file : Found} (hm : mount card = (some b, log))
      (hl : locate card b name fuel log = some (file, log₁)) (hc : file.cluster = 0) :
      Ends card name bufSize fuel buf ⟨-1, buf, log₁, file, []⟩
  | empty {b : FatBPB} {log log₁ : Log} {file : Found} (hm : mount card = (some b, log))
      (hl : locate card b name fuel log = some (file, log₁)) (hc : file.cluster ≠ 0)
      (hs : file.fileSize = 0) : Ends card name bufSize fuel buf ⟨0, buf, log₁, file, []⟩
  | copied {b : FatBPB} {log log₁ log₂ : Log} {file : Found} {ok : Bool} {k : Copy}
      (hm : mount card = (some b, log)) (hl : locate card b name fuel log = some (file, log₁))
      (hc : file.cluster ≠ 0) (hs : file.fileSize ≠ 0)
      (hk : copyChain card b file.fileSize bufSize fuel log₁ file.cluster ⟨0, false, buf, []⟩ =
        some (ok, k, log₂)) :
      Ends card name bufSize fuel buf
        ⟨if ok then k.bytesRead else -1, k.buf, log₂, file, k.followed⟩

theorem sdReadFile_iff {o : Outcome} :
    sdReadFile card name bufSize fuel buf = some o ↔ Ends card name bufSize fuel buf o := by
  constructor
  · intro h
    unfold sdReadFile at h
    split at h
    · next log hm =>
      cases h
      exact .unmounted hm
    · next b log hm =>
      obtain ⟨⟨file, log₁⟩, hl, h⟩ := Option.bind_eq_some_iff.mp h
      simp only at h
      split_ifs at h with hc hs
      · cases h
        exact .missing hm hl hc
      · cases h
        exact .empty hm hl hc hs
      · obtain ⟨⟨ok, k, log₂⟩, hk, h⟩ := Option.bind_eq_some_iff.mp h
        cases h
        exact .copied hm hl hc hs hk
  · intro h
    cases h with
    | unmounted hm => simp only [sdReadFile, hm]
    | missing hm hl hc =>
      simp only [sdReadFile, hm, hl, Option.bind_eq_bind, Option.bind_some, hc, if_true]
    | empty hm hl hc hs =>
      simp only [sdReadFile, hm, hl, Option.bind_eq_bind, Option.bind_some, hc, hs, if_false, if_true]
    | copied hm hl hc hs hk =>
      simp only [sdReadFile, hm, hl, hk, Option.bind_eq_bind, Option.bind_some, hc, hs, if_false]

theorem Ends.mono {o : Outcome} (h : Ends card name bufSize fuel buf o) (hf : fuel ≤ fuel') :
    Ends card name bufSize fuel' buf o := by
  cases h with
  | unmounted hm => exact .unmounted hm
  | missing hm hl hc => exact .missing hm (locate_mono hl hf) hc
  | empty hm hl hc hs => exact .empty hm (locate_mono hl hf) hc hs
  | copied hm hl hc hs hk => exact .copied hm (locate_mono hl hf) hc hs (copyChain_mono hk hf)

theorem Ends.located {o : Outcome} (h : Ends card name bufSize fuel buf o)
    (hm : mount card = (some b, log)) :
    ∃ log₁, locate card b name fuel log = some (o.found, log₁) := by
  cases h with
  | unmounted hm' =>
    rw [hm] at hm'
    cases hm'
  | missing hm' hl =>
    rw [hm] at hm'
    cases hm'
    exact ⟨_, hl⟩
  | empty hm' hl =>
    rw [hm] at hm'
    cases hm'
    exact ⟨_, hl⟩
  | copied hm' hl =>
    rw [hm] at hm'
    cases hm'
    exact ⟨_, hl⟩

/-- The call returns with the given outcome, after however many rounds. -/
def Returns (card : Card) (name : List UInt8) (bufSize : ℕ) (buf : Buffer) (o : Outcome) : Prop :=
  ∃ fuel, sdReadFile card name bufSize fuel buf = some o

theorem Returns.unique {o o' : Outcome} (h : Returns card name bufSize buf o)
    (h' : Returns card name bufSize buf o') : o = o' := by
  obtain ⟨n, h⟩ := h
  obtain ⟨m, h'⟩ := h'
  have h₁ := sdReadFile_iff.mpr ((sdReadFile_iff.mp h).mono (le_max_left n m))
  have h₂ := sdReadFile_iff.mpr ((sdReadFile_iff.mp h').mono (le_max_right n m))
  exact Option.some.inj (h₁.symm.trans h₂)

theorem returns_missing {log log₁ : Log} {file : Found} (hm : mount card = (some b, log))
    (hl : locate card b name fuel log = some (file, log₁)) (hc : file.cluster = 0) :
    Returns card name bufSize buf ⟨-1, buf, log₁, file, []⟩ :=
  ⟨fuel, sdReadFile_iff.mpr (.missing hm hl hc)⟩

theorem returns_copied {log log₁ log₂ : Log} {file : Found} {ok : Bool} {k : Copy}
    (hm : mount card = (some b, log)) (hl : locate card b name fuel log = some (file, log₁))
    (hc : file.cluster ≠ 0) (hs : file.fileSize ≠ 0)
    (hk : copyChain card b file.fileSize bufSize fuel' log₁ file.cluster ⟨0, false, buf, []⟩ =
      some (ok, k, log₂)) :
    Returns card name bufSize buf
      ⟨if ok then k.bytesRead else -1, k.buf, log₂, file, k.followed⟩ :=
  ⟨max fuel fuel', sdReadFile_iff.mpr (.copied hm (locate_mono hl (le_max_left _ _)) hc hs
    (copyChain_mono hk (le_max_right _ _)))⟩

end Fuel

def sound (image : ℕ → Sector) : Card := ⟨image, fun _ ↦ false⟩

section Sound

variable {image : ℕ → Sector} {w : Wanted} {purpose : Purpose} {b : FatBPB} {log : Log}
  {fuel c : ℕ} {secs : List ℕ}

@[simp] theorem sdReadSector_sound (sec : ℕ) :
    (sound image).sdReadSector log sec = some (image sec) := rfl

def nextOf (b : FatBPB) (image : ℕ → Sector) (c : ℕ) : ℕ := fatNextCluster b (sound image) [] c

theorem fatNextCluster_sound : fatNextCluster b (sound image) log c = nextOf b image c := rfl

structure Slot where
  place : ℕ × ℕ
  entry : Entry

def slotsOf (image : ℕ → Sector) (sec : ℕ) : List Slot :=
  (List.range 16).map (fun e ↦ ⟨(sec, e), entryAt (image sec) e⟩)

def dirSlots (image : ℕ → Sector) (secs : List ℕ) : List Slot := secs.flatMap (slotsOf image)

def Slot.scan (w : Wanted) (s : Slot) : Option Found := scanEntry w s.entry s.place

theorem scanSector_eq (sec : ℕ) :
    scanSector w sec (image sec) = (slotsOf image sec).findSome? (Slot.scan w) := by
  rw [slotsOf, List.findSome?_map]
  rfl

theorem scanSectors_sound (image : ℕ → Sector) (w : Wanted) (purpose : Purpose) (log : Log)
    (secs : List ℕ) :
    (scanSectors (sound image) w purpose log secs).1 =
      (dirSlots image secs).findSome? (Slot.scan w) := by
  induction secs generalizing log with
  | nil => rfl
  | cons sec secs ih =>
    have hd : (dirSlots image (sec :: secs)).findSome? (Slot.scan w) =
        (scanSector w sec (image sec)).or ((dirSlots image secs).findSome? (Slot.scan w)) := by
      rw [dirSlots, List.flatMap_cons, List.findSome?_append, ← scanSector_eq]
      rfl
    rw [hd, ← ih ((sound image).record log purpose)]
    cases hs : scanSector w sec (image sec) <;>
      simp only [scanSectors, sdReadSector_sound, hs, Option.none_or, Option.some_or]

/-- What the search of one cluster comes to. -/
def probe (b : FatBPB) (image : ℕ → Sector) (w : Wanted) (c : ℕ) : Option Found :=
  (dirSlots image (clusterSectors b c)).findSome? (Slot.scan w)

theorem scanChain_sound (image : ℕ → Sector) (w : Wanted) (purpose : Purpose) (b : FatBPB)
    (fuel : ℕ) (log : Log) (c : ℕ) :
    (scanChain (sound image) w purpose b fuel log c).map Prod.fst =
      (search (nextOf b image) (fatClusValid b) (probe b image w) fuel c).map
        (·.getD notFound) := by
  induction fuel generalizing log c with
  | zero => rfl
  | succ fuel ih =>
    have hs := scanSectors_sound image w purpose log (clusterSectors b c)
    rw [scanChain, search]
    split
    · next found log' he =>
      rw [he] at hs
      have hp : probe b image w c = some found := hs.symm
      simp [hp]
    · next log' he =>
      rw [he] at hs
      have hp : probe b image w c = none := hs.symm
      simp only [hp]
      rw [fatNextCluster_sound]
      by_cases hv : fatClusValid b (nextOf b image c) = true
      · rw [if_pos hv, if_pos hv]
        exact ih _ _
      · rw [if_neg hv, if_neg hv]
        rfl

/-- A search of a sound card has a result that does not depend on earlier reads. -/
def Yields (b : FatBPB) (image : ℕ → Sector) (w : Wanted) (start maxSectors c : ℕ) (f : Found) :
    Prop :=
  ∀ purpose log, ∃ fuel log',
    fatScanDir (sound image) w purpose b fuel log start maxSectors c = some (f, log')

theorem exists_pair {α β : Type} {o : Option (α × β)} {a : α} (h : o.map Prod.fst = some a) :
    ∃ y, o = some (a, y) := by
  obtain ⟨⟨x, y⟩, ho, rfl⟩ := Option.map_eq_some_iff.mp h
  exact ⟨y, ho⟩

theorem yields_region (b : FatBPB) (image : ℕ → Sector) (w : Wanted) (start m : ℕ) (hc : c < 2) :
    Yields b image w start m c
      (((dirSlots image ((List.range m).map (fun s ↦ u32 (start + s)))).findSome?
        (Slot.scan w)).getD notFound) := by
  intro purpose log
  rw [← scanSectors_sound image w purpose log]
  exact ⟨0, _, by rw [fatScanDir, if_neg (by omega)]⟩

theorem yields_of_search {o : Option Found} {start m : ℕ} (hc : 2 ≤ c)
    (h : search (nextOf b image) (fatClusValid b) (probe b image w) fuel c = some o) :
    Yields b image w start m c (o.getD notFound) := by
  intro purpose log
  have hs := scanChain_sound image w purpose b fuel log c
  rw [h, Option.map_some] at hs
  obtain ⟨log', ho⟩ := exists_pair hs
  exact ⟨fuel, log', by rw [fatScanDir, if_pos hc, ho]⟩

theorem findSome?_clusters (cs : List ℕ) :
    cs.findSome? (probe b image w) =
      (dirSlots image (cs.flatMap (clusterSectors b))).findSome? (Slot.scan w) := by
  induction cs with
  | nil => rfl
  | cons c cs ih =>
    rw [List.findSome?_cons, List.flatMap_cons, dirSlots, List.flatMap_append,
      List.findSome?_append, ih]
    change _ = (probe b image w c).or _
    cases probe b image w c <;> rfl

theorem yields_chain {cs : List ℕ} (hc : 2 ≤ c) (h : Chain (nextOf b image) (fatClusValid b) c cs) :
    Yields b image w 0 0 c
      (((dirSlots image (cs.flatMap (clusterSectors b))).findSome? (Slot.scan w)).getD
        notFound) := by
  rw [← findSome?_clusters]
  exact yields_of_search hc (search_chain h le_rfl)

def RootYields (b : FatBPB) (image : ℕ → Sector) (w : Wanted) (f : Found) : Prop :=
  ∀ purpose log, ∃ fuel log', scanRoot (sound image) w purpose b fuel log = some (f, log')

variable {name : List UInt8} {file tables f g : Found}

theorem RootYields.eq {log' : Log} (h : RootYields b image w f)
    (hs : scanRoot (sound image) w purpose b fuel log = some (g, log')) : g = f := by
  obtain ⟨fuel', log'', h⟩ := h purpose log
  have h₁ := scanRoot_mono hs (le_max_left fuel fuel')
  have h₂ := scanRoot_mono h (le_max_right fuel fuel')
  exact congrArg Prod.fst (Option.some.inj (h₁.symm.trans h₂))

theorem rootYields_chain (hb : b.isFat32 = true) (h : Yields b image w 0 0 b.rootCluster f) :
    RootYields b image w f := by
  intro purpose log
  obtain ⟨fuel, log', h⟩ := h purpose log
  exact ⟨fuel, log', by rw [scanRoot, if_pos hb, h]⟩

theorem rootYields_region (hb : b.isFat32 = false)
    (h : Yields b image w b.rootDirSector b.rootDirSectors 0 f) : RootYields b image w f := by
  intro purpose log
  obtain ⟨fuel, log', h⟩ := h purpose log
  exact ⟨fuel, log', by rw [scanRoot, if_neg (by simp [hb]), h]⟩

theorem locate_root (h : RootYields b image (wantedFile name) file) (hc : file.cluster ≠ 0)
    (log : Log) : ∃ fuel log', locate (sound image) b name fuel log = some (file, log') := by
  obtain ⟨fuel, log₁, h₁⟩ := h .root log
  exact ⟨fuel, log₁, locate_eq_some_iff.mpr ⟨file, log₁, h₁, by rw [if_pos hc]⟩⟩

theorem locate_no_tables (h : RootYields b image (wantedFile name) file) (hc : file.cluster = 0)
    (ht : RootYields b image wantedTables tables) (hc' : tables.cluster = 0) (log : Log) :
    ∃ fuel log', locate (sound image) b name fuel log = some (file, log') := by
  obtain ⟨fuel₁, log₁, h₁⟩ := h .root log
  obtain ⟨fuel₂, log₂, h₂⟩ := ht .tables log₁
  refine ⟨max fuel₁ fuel₂, log₂, locate_eq_some_iff.mpr ⟨file, log₁, ?_, ?_⟩⟩
  · exact scanRoot_mono h₁ (le_max_left _ _)
  · rw [if_neg (by simp [hc])]
    refine ⟨tables, log₂, scanRoot_mono h₂ (le_max_right _ _), ?_⟩
    rw [if_neg (by simp [hc'])]

theorem locate_tables (h : RootYields b image (wantedFile name) file) (hc : file.cluster = 0)
    (ht : RootYields b image wantedTables tables) (hc' : tables.cluster ≠ 0)
    (hf : Yields b image (wantedFile name) 0 0 tables.cluster f) (log : Log) :
    ∃ fuel log', locate (sound image) b name fuel log = some (f, log') := by
  obtain ⟨fuel₁, log₁, h₁⟩ := h .root log
  obtain ⟨fuel₂, log₂, h₂⟩ := ht .tables log₁
  obtain ⟨fuel₃, log₃, h₃⟩ := hf .tables log₂
  refine ⟨max fuel₁ (max fuel₂ fuel₃), log₃, locate_eq_some_iff.mpr ⟨file, log₁, ?_, ?_⟩⟩
  · exact scanRoot_mono h₁ (by omega)
  · rw [if_neg (by simp [hc])]
    refine ⟨tables, log₂, scanRoot_mono h₂ (by omega), ?_⟩
    rw [if_pos hc']
    exact fatScanDir_mono h₃ (by omega)

end Sound

end FpgaDatabase.Firmware.SdSearch
