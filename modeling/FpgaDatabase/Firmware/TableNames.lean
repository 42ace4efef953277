import FpgaDatabase.Firmware.FatRead
import FpgaDatabase.Firmware.FreshTable

namespace FpgaDatabase.Firmware.TableNames

open CString Request Table SdDriver SdSearch FatVolume TableLoad FreshTable

variable {card : Card} {w : Wanted} {p : Purpose} {b : FatBPB} {name a : List UInt8}
  {fuel c bufSize : ℕ} {log : Log} {f : Found} {buf : Buffer} {o : Outcome} {target : Target}
  {l : Loaded}

section Search

def nameAt (card : Card) (place : ℕ × ℕ) : List UInt8 :=
  entryName (entryAt (card.image place.1) place.2)

def Bears (card : Card) (w : Wanted) (f : Found) : Prop :=
  f.cluster ≠ 0 → ∃ place, f.place = some place ∧
    (nameAt card place = w.name83 ∨ w.altName83 = some (nameAt card place))

theorem bears_notFound : Bears card w notFound := fun h ↦ absurd rfl h

theorem scanEntry_bears (place : ℕ × ℕ)
    (h : scanEntry w (entryAt (card.image place.1) place.2) place = some f) : Bears card w f := by
  have hs := scan_eq w ⟨place, entryAt (card.image place.1) place.2⟩
  rw [Slot.scan, h] at hs
  split_ifs at hs with h₀ hasked
  · cases hs
    exact bears_notFound
  · cases hs
    have hname := hasked.2
    simp only [asked, Bool.and_eq_true, Bool.or_eq_true, decide_eq_true_eq] at hname
    exact fun _ ↦ ⟨place, rfl, hname.2⟩

theorem scanSectors_bears {secs : List ℕ} {log' : Log}
    (h : scanSectors card w p log secs = (some f, log')) : Bears card w f := by
  induction secs generalizing log with
  | nil => cases h
  | cons sec secs ih =>
    unfold scanSectors Card.sdReadSector at h
    cases hf : card.fails log.length with
    | true =>
      simp only [hf, if_true] at h
      cases h
      exact bears_notFound
    | false =>
      simp only [hf, Bool.false_eq_true, if_false] at h
      split at h
      · next found hs =>
        cases h
        obtain ⟨entry, -, he⟩ := List.exists_of_findSome?_eq_some hs
        exact scanEntry_bears (sec, entry) he
      · exact ih h

theorem scanChain_bears {r : Found × Log} (h : scanChain card w p b fuel log c = some r) :
    Bears card w r.1 := by
  induction fuel generalizing log c with
  | zero => cases h
  | succ fuel ih =>
    unfold scanChain at h
    split at h
    · next found log' hs =>
      cases h
      exact scanSectors_bears hs
    · simp only at h
      split_ifs at h
      · exact ih h
      · cases h
        exact bears_notFound

theorem fatScanDir_bears {s m : ℕ} {r : Found × Log}
    (h : fatScanDir card w p b fuel log s m c = some r) : Bears card w r.1 := by
  unfold fatScanDir at h
  split_ifs at h
  · exact scanChain_bears h
  · cases h
    simp only
    cases hs : scanSectors card w p log ((List.range m).map (fun k ↦ u32 (s + k))) with
    | mk found log' =>
      cases found with
      | none => exact bears_notFound
      | some f => exact scanSectors_bears hs

theorem scanRoot_bears {r : Found × Log} (h : scanRoot card w p b fuel log = some r) :
    Bears card w r.1 := by
  unfold scanRoot at h
  split_ifs at h
  · exact fatScanDir_bears h
  · exact fatScanDir_bears h

theorem locate_bears {r : Found × Log} (h : locate card b name fuel log = some r) :
    Bears card (wantedFile name) r.1 := by
  obtain ⟨file, log₁, hroot, h⟩ := locate_eq_some_iff.mp h
  have hfile : Bears card (wantedFile name) file := scanRoot_bears hroot
  split_ifs at h
  · rw [← h]
    exact hfile
  · obtain ⟨tables, log₂, -, h⟩ := h
    split_ifs at h
    · exact fatScanDir_bears h
    · rw [← h]
      exact hfile

theorem sdReadFile_bears (h : sdReadFile card name bufSize fuel buf = some o) (hr : 0 ≤ o.ret) :
    ∃ place, o.found.place = some place ∧
      (nameAt card place = to83 name ∨ nameAt card place = to83AliasGuess name) := by
  have hfound : o.found.cluster ≠ 0 ∧ Bears card (wantedFile name) o.found := by
    cases sdReadFile_iff.mp h with
    | unmounted => simp at hr
    | missing => simp at hr
    | empty _ hl hc => exact ⟨hc, locate_bears hl⟩
    | copied _ hl hc => exact ⟨hc, locate_bears hl⟩
  obtain ⟨place, hplace, hname⟩ := hfound.2 hfound.1
  exact ⟨place, hplace, hname.imp_right fun he ↦ (Option.some.inj he).symm⟩

end Search

section Keys

def keys (a : List UInt8) : List (List UInt8) :=
  [to83 (a ++ tableFileSuffix), to83AliasGuess (a ++ tableFileSuffix), to83 a, to83AliasGuess a]

theorem load_bears (h : Loads card a buf target l) (hr : l.ret = true) :
    ∃ place, l.found.place = some place ∧ nameAt card place ∈ keys a := by
  obtain ⟨fuel, h⟩ := h
  unfold loadTableFromSd at h
  simp only at h
  split_ifs at h
  · cases h
    cases hr
  · cases h
    cases hr
  · obtain ⟨o, ho, rfl⟩ := Option.map_eq_some_iff.mp h
    have hlen : headerBytes = 28 := rfl
    have hret : (0 : ℤ) ≤ o.ret := by
      by_contra hneg
      unfold acceptFile at hr
      rw [if_pos (by omega)] at hr
      cases hr
    rw [(acceptFile_frame o target).2.2]
    obtain ⟨o₁, ho₁, ho⟩ := Option.bind_eq_some_iff.mp ho
    split_ifs at ho
    · obtain ⟨place, hplace, hname⟩ := sdReadFile_bears ho hret
      refine ⟨place, hplace, ?_⟩
      rw [keys]
      rcases hname with hn | hn
      · simp [show nameAt card place = _ from hn]
      · simp [show nameAt card place = _ from hn]
    · cases ho
      obtain ⟨place, hplace, hname⟩ := sdReadFile_bears ho₁ hret
      refine ⟨place, hplace, ?_⟩
      rw [keys]
      rcases hname with hn | hn
      · simp [hn]
      · simp [hn]

theorem lastDot_none (h : 46 ∉ a) : lastDot a = none := by
  induction a with
  | nil => rfl
  | cons ch a ih =>
    rw [List.mem_cons, not_or] at h
    rw [lastDot, ih h.2]
    simp [Ne.symm h.1]

theorem lastDot_suffix (h : 46 ∉ a) : lastDot (a ++ tableFileSuffix) = some a.length := by
  induction a with
  | nil => decide
  | cons ch a ih =>
    rw [List.mem_cons, not_or] at h
    rw [List.cons_append, lastDot, ih h.2]
    rfl

theorem take_padded : (padded 8 a).take 6 = padded 6 a := by
  unfold padded
  rw [List.take_append, List.take_replicate, ← List.map_take, List.take_take]
  congr 2
  simp
  omega

theorem take_key (h : 46 ∉ a) {key : List UInt8} (hk : key ∈ keys a) : key.take 6 = padded 6 a := by
  have hlen : (padded 6 a).length = 6 := by
    simp [padded]
    omega
  have hlen' : (padded 8 a).length = 8 := by
    simp [padded]
    omega
  have hbase : baseOf (a ++ tableFileSuffix) = a := by
    rw [baseOf, lastDot_suffix h]
    simp
  have hbase' : baseOf a = a := by
    rw [baseOf, lastDot_none h]
  simp only [keys, to83, to83AliasGuess, hbase, hbase', List.mem_cons, List.not_mem_nil,
    or_false] at hk
  rcases hk with rfl | rfl | rfl | rfl
  · rw [List.take_append_of_le_length (by omega), take_padded]
  · rw [List.append_assoc, List.take_append_of_le_length (by omega), List.take_of_length_le (by omega)]
  · rw [List.take_append_of_le_length (by omega), take_padded]
  · rw [List.append_assoc, List.take_append_of_le_length (by omega), List.take_of_length_le (by omega)]

def plain (ch : UInt8) : Bool := isalnum ch || ch = 95

theorem toupper_plain (ch : UInt8) (h : plain ch = true) :
    ch ≠ 46 ∧ toupper ch ≠ 0 ∧ toupper ch ≠ 32 ∧ toupper ch ≠ 46 ∧ toupper ch ≠ 0xE5 := by
  revert ch
  exact forall_byte (by decide +kernel)

theorem plain_of_sanitized (h : sanitizeIdentifier a = true) : ∀ ch ∈ a, plain ch = true := by
  simp only [sanitizeIdentifier, Bool.and_eq_true, List.all_eq_true] at h
  exact h.2

theorem no_dot (h : sanitizeIdentifier a = true) : 46 ∉ a :=
  fun hmem ↦ (toupper_plain 46 (plain_of_sanitized h 46 hmem)).1 rfl

theorem takeWhile_padded (h : sanitizeIdentifier a = true) (n : ℕ) :
    (padded n a).takeWhile (fun ch ↦ ch ≠ 32) = (a.take n).map toupper := by
  unfold padded
  rw [List.takeWhile_append_of_pos]
  · simp
  · intro ch hch
    obtain ⟨ch, hmem, rfl⟩ := List.mem_map.mp hch
    simpa using (toupper_plain ch (plain_of_sanitized h ch (List.mem_of_mem_take hmem))).2.2.1

theorem padded_eq_iff {a' : List UInt8} (h : sanitizeIdentifier a = true)
    (h' : sanitizeIdentifier a' = true) :
    padded 6 a = padded 6 a' ↔ (a.take 6).map toupper = (a'.take 6).map toupper := by
  constructor
  · intro he
    rw [← takeWhile_padded h, he, takeWhile_padded h']
  · intro he
    have hlen := congrArg List.length he
    simp only [List.length_map, List.length_take] at hlen
    unfold padded
    rw [he, show 6 - a.length = 6 - a'.length by omega]

end Keys

section Requests

/-- A value of TABLE that `parse_request_body` accepts. -/
def Accepted (a : List UInt8) : Prop :=
  ∃ body request, parseRequestBody body = some request ∧ request.table = a

theorem Accepted.sanitized (h : Accepted a) : sanitizeIdentifier a = true ∧ a.length ≤ 31 := by
  obtain ⟨body, request, hparse, rfl⟩ := h
  obtain ⟨htable, hs, -, -⟩ := parseRequestBody_some hparse
  exact ⟨hs, (extractFrom_some htable).1⟩

end Requests

section Sharing

def smallTable : List UInt8 :=
  ascii "TBL8" ++ [1, 0, 0, 0, 1, 0, 0, 0, 1, 0, 0, 0, 4, 0, 0, 0, 0, 0, 0, 0] ++ ascii "n" ++
    [0, 0, 0] ++ ascii "1   "

theorem loadTable_smallTable : (loadTable smallTable).isSome = true := by decide +kernel

theorem storable_alias (h : sanitizeIdentifier a = true) :
    OneFile.Storable (to83AliasGuess (a ++ tableFileSuffix)) := by
  have hbase : baseOf (a ++ tableFileSuffix) = a := by
    rw [baseOf, lastDot_suffix (no_dot h)]
    simp
  have hhead : (to83AliasGuess (a ++ tableFileSuffix)).getD 0 0 = toupper (a.headD 0) ∧
      a.headD 0 ∈ a := by
    rw [to83AliasGuess, hbase]
    cases a with
    | nil => simp [sanitizeIdentifier] at h
    | cons ch a => exact ⟨rfl, List.mem_cons_self⟩
  have hch := toupper_plain _ (plain_of_sanitized h _ hhead.2)
  refine ⟨?_, ?_, ?_, ?_⟩
  · simp [to83AliasGuess, padded]
    omega
  · rw [hhead.1]
    exact hch.2.1
  · rw [hhead.1]
    exact hch.2.2.2.2
  · rw [hhead.1]
    exact hch.2.2.2.1

theorem delivered_eq {content : List UInt8} (hret : o.ret = content.length)
    (hbuf : ∀ i < content.length, o.buf i = content.getD i 0) : delivered o = content := by
  rw [delivered, hret, Int.toNat_natCast]
  apply List.ext_getElem
  · simp
  · intro i hi hi'
    simp [bytesAt, hbuf i hi', hi']

/-- A file that bears the guessed alias serves every table name that leads to it. -/
theorem load_alias {nm : List UInt8} (h : sanitizeIdentifier a = true) (hlen : a.length ≤ 31)
    (hnm : nm = to83AliasGuess (a ++ tableFileSuffix)) (buf : Buffer) (target : Target) :
    ∃ l, Loads (sound (OneFile.image nm smallTable)) a buf target l ∧ l.ret = true ∧
      l.found.place = some (2, 0) := by
  have hs : OneFile.Storable nm := hnm ▸ storable_alias h
  obtain ⟨o, ⟨fuel, ho⟩, hret, hbuf, hfound⟩ := FatRead.oneFile_read hs
    (show smallTable.length ≤ 512 by decide) (by decide) (.inr hnm)
    (show smallTable.length ≤ sdFileMaxSize by decide) buf
  have hd := acceptFile_delivered o target (sdReadFile_le ho)
  rw [delivered_eq hret hbuf] at hd
  obtain ⟨table, htable⟩ := Option.isSome_iff_exists.mp loadTable_smallTable
  rw [htable] at hd
  refine ⟨acceptFile o target, ?_, hd.1, ?_⟩
  · exact loads_of_read h (show a.length < 32 by omega) ho (by omega) target
  · rw [(acceptFile_frame o target).2.2, hfound]
    rfl

/-- On no volume do two table names lead to the same directory entry. -/
def Apart (a b : List UInt8) : Prop :=
  ∀ (v : Volume) (buf buf' : Buffer) (target target' : Target) (l l' : Loaded),
    Loads (sound v.image) a buf target l → Loads (sound v.image) b buf' target' l' →
    l.ret = true → l'.ret = true → l.found.place ≠ l'.found.place

theorem alias_eq (h : sanitizeIdentifier a = true) :
    to83AliasGuess (a ++ tableFileSuffix) = padded 6 a ++ [126, 49] ++ ascii "TBL" := by
  have hext : padded 3 (ascii ".tbl").tail = ascii "TBL" := by decide
  rw [to83AliasGuess, baseOf, extOf, lastDot_suffix (no_dot h)]
  simpa [tableFileSuffix] using hext

/-- Names that agree in their first six characters share the entry of a volume. The
second table is loaded after the first. -/
theorem shared_entry {a b : List UInt8} (ha : Accepted a) (hb : Accepted b)
    (he : (a.take 6).map toupper = (b.take 6).map toupper) :
    ∃ (v : Volume) (l l' : Loaded), Loads (sound v.image) a (fun _ ↦ 0) blank l ∧
      Loads (sound v.image) b l.buf blank l' ∧ l.ret = true ∧ l'.ret = true ∧
      l.found.place = l'.found.place := by
  obtain ⟨hsa, hla⟩ := ha.sanitized
  obtain ⟨hsb, hlb⟩ := hb.sanitized
  have hnm : to83AliasGuess (a ++ tableFileSuffix) = to83AliasGuess (b ++ tableFileSuffix) := by
    rw [alias_eq hsa, alias_eq hsb, (padded_eq_iff hsa hsb).mpr he]
  obtain ⟨l, hl, hr, hp⟩ := load_alias hsa hla rfl (fun _ ↦ 0) blank
  obtain ⟨l', hl', hr', hp'⟩ := load_alias hsb hlb hnm l.buf blank
  exact ⟨OneFile.volume (storable_alias hsa) (by decide) (by decide), l, l', hl, hl', hr, hr',
    hp.trans hp'.symm⟩

/-- Two names are kept apart by their first six characters, and by nothing behind
them. -/
theorem names_apart_iff {a b : List UInt8} (ha : Accepted a) (hb : Accepted b) :
    Apart a b ↔ (a.take 6).map toupper ≠ (b.take 6).map toupper := by
  constructor
  · intro hapart he
    obtain ⟨v, l, l', hl, hl', hr, hr', hp⟩ := shared_entry ha hb he
    exact hapart v _ _ _ _ l l' hl hl' hr hr' hp
  · intro hne v buf buf' target target' l l' hl hl' hr hr' hplace
    obtain ⟨hsa, -⟩ := ha.sanitized
    obtain ⟨hsb, -⟩ := hb.sanitized
    obtain ⟨place, hp, hk⟩ := load_bears hl hr
    obtain ⟨place', hp', hk'⟩ := load_bears hl' hr'
    have he : place = place' := Option.some.inj (hp.symm.trans (hplace.trans hp'))
    rw [← he] at hk'
    have hpad := (take_key (no_dot hsa) hk).symm.trans (take_key (no_dot hsb) hk')
    exact hne ((padded_eq_iff hsa hsb).mp hpad)

def queryFor (table : String) : List UInt8 :=
  ascii "TABLE=" ++ ascii table ++ ascii "\nSQL=SELECT * FROM t\n"

theorem accepted_of_parse {table : String}
    (h : (parseRequestBody (queryFor table)).map QueryRequest.table = some (ascii table)) :
    Accepted (ascii table) := by
  obtain ⟨request, hrequest, htable⟩ := Option.map_eq_some_iff.mp h
  exact ⟨queryFor table, request, hrequest, htable⟩

theorem alunos_vendas_apart : Accepted (ascii "alunos") ∧ Accepted (ascii "vendas") ∧
    Apart (ascii "alunos") (ascii "vendas") := by
  have ha : Accepted (ascii "alunos") := accepted_of_parse (by decide +kernel)
  have hb : Accepted (ascii "vendas") := accepted_of_parse (by decide +kernel)
  exact ⟨ha, hb, (names_apart_iff ha hb).mpr (by decide)⟩

/-- The only table is ALUNOS~1.TBL. A query for one name is answered with it, and so is
the next query, for the other. -/
theorem alunos_confused : Accepted (ascii "alunos_novos") ∧ Accepted (ascii "alunos_velhos") ∧
    (ascii "alunos_novos").map toupper ≠ (ascii "alunos_velhos").map toupper ∧
    ∃ (v : Volume) (l l' : Loaded),
      Loads (sound v.image) (ascii "alunos_novos") (fun _ ↦ 0) blank l ∧
      Loads (sound v.image) (ascii "alunos_velhos") l.buf blank l' ∧
      l.ret = true ∧ l'.ret = true ∧ l.found.place = l'.found.place := by
  have ha : Accepted (ascii "alunos_novos") := accepted_of_parse (by decide +kernel)
  have hb : Accepted (ascii "alunos_velhos") := accepted_of_parse (by decide +kernel)
  exact ⟨ha, hb, by decide, shared_entry ha hb (by decide)⟩

end Sharing

end FpgaDatabase.Firmware.TableNames
