import FpgaDatabase.Firmware.CString

namespace FpgaDatabase.Firmware.SdDriver

open CString

abbrev Sector := ℕ → UInt8

abbrev Buffer := ℕ → UInt8

/-- A card as `sd_read_sector` shows it: what each sector holds, and which of the reads
of one call fail, counted from its start. -/
structure Card where
  image : ℕ → Sector
  fails : ℕ → Bool

def u32 (n : ℕ) : ℕ := n % 4294967296

/-- What a sector is read for. FAT sectors read while a directory is searched belong
to that search; `fat` are those read while the file is copied. -/
inductive Purpose
  | boot
  | root
  | tables
  | data
  | fat
deriving DecidableEq

structure Access where
  purpose : Purpose
  failed : Bool
deriving DecidableEq

abbrev Log := List Access

namespace Card

variable (card : Card) (log : Log)

def sdReadSector (sector : ℕ) : Option Sector :=
  if card.fails log.length then none else some (card.image sector)

def record (purpose : Purpose) : Log := log ++ [⟨purpose, card.fails log.length⟩]

end Card

section Volume

structure FatBPB where
  bytesPerSector : ℕ
  sectorsPerCluster : ℕ
  reservedSectors : ℕ
  numFats : ℕ
  rootEntryCount : ℕ
  sectorsPerFat : ℕ
  rootCluster : ℕ
  isFat32 : Bool
  fatStart : ℕ
  rootDirSector : ℕ
  rootDirSectors : ℕ
  dataStart : ℕ

def ru16 (s : Sector) (offset : ℕ) : ℕ := (s offset).toNat + 256 * (s (offset + 1)).toNat

def ru32 (s : Sector) (offset : ℕ) : ℕ := ru16 s offset + 65536 * ru16 s (offset + 2)

def signed (s : Sector) : Bool := s 510 = 0x55 && s 511 = 0xAA

def fatFindVbr (s : Sector) : ℕ :=
  if s 0 = 0xEB ∨ s 0 = 0xE9 then 0 else if signed s then ru32 s 454 else 0

def fatParseBpb (s : Sector) (vbrSector : ℕ) : Option FatBPB :=
  let sectorsPerFat := if ru16 s 22 ≠ 0 then ru16 s 22 else ru32 s 36
  let fatStart := u32 (vbrSector + ru16 s 14)
  let rootDirSectors := (ru16 s 17 * 32 + 511) / 512
  let rootDirSector := u32 (fatStart + (s 16).toNat * sectorsPerFat)
  if !signed s then none
  else if ru16 s 11 ≠ 512 then none
  else if s 13 = 0 then none
  else if s 16 = 0 then none
  else some
    { bytesPerSector := ru16 s 11
      sectorsPerCluster := (s 13).toNat
      reservedSectors := ru16 s 14
      numFats := (s 16).toNat
      rootEntryCount := ru16 s 17
      sectorsPerFat
      rootCluster := ru32 s 44
      isFat32 := ru16 s 17 = 0
      fatStart
      rootDirSector
      rootDirSectors
      dataStart := u32 (rootDirSector + rootDirSectors) }

variable (b : FatBPB)

/-- `clus - 2u` wraps around for the cluster numbers 0 and 1. -/
def fatClus2sec (clus : ℕ) : ℕ := u32 (b.dataStart + u32 (clus + 4294967294) * b.sectorsPerCluster)

def clusterSectors (clus : ℕ) : List ℕ :=
  (List.range b.sectorsPerCluster).map (fun s ↦ u32 (fatClus2sec b clus + s))

def fatIsEoc (clus : ℕ) : Bool := if b.isFat32 then 0x0FFFFFF8 ≤ clus else 0xFFF8 ≤ clus

def fatClusValid (clus : ℕ) : Bool := 2 ≤ clus && !fatIsEoc b clus

def fatSector (off : ℕ) : ℕ := u32 (b.fatStart + off / 512)

variable (card : Card) (log : Log)

/-- A failed read looks like the end of the chain. -/
def fat16Next (clus : ℕ) : ℕ :=
  let off := u32 (clus * 2)
  match card.sdReadSector log (fatSector b off) with
  | none => 0xFFFF
  | some s => ru16 s (off % 512)

def fat32Next (clus : ℕ) : ℕ :=
  let off := u32 (clus * 4)
  match card.sdReadSector log (fatSector b off) with
  | none => 0x0FFFFFF8
  | some s => ru32 s (off % 512) % 0x10000000

def fatNextCluster (clus : ℕ) : ℕ :=
  if b.isFat32 then fat32Next b card log clus else fat16Next b card log clus

end Volume

section Names

def toupper (ch : UInt8) : UInt8 := if islower ch then ch - 32 else ch

def lastDot : List UInt8 → Option ℕ
  | [] => none
  | c :: cs =>
    match lastDot cs with
    | some i => some (i + 1)
    | none => if c = 46 then some 0 else none

variable (name : List UInt8)

def baseOf : List UInt8 :=
  match lastDot name with
  | some dot => name.take dot
  | none => name

def extOf : List UInt8 :=
  match lastDot name with
  | some dot => name.drop (dot + 1)
  | none => []

def padded (width : ℕ) (text : List UInt8) : List UInt8 :=
  (text.take width).map toupper ++ List.replicate (width - text.length) 32

def to83 : List UInt8 := padded 8 (baseOf name) ++ padded 3 (extOf name)

def to83AliasGuess : List UInt8 := padded 6 (baseOf name) ++ [126, 49] ++ padded 3 (extOf name)

end Names

section Directory

structure Wanted where
  name83 : List UInt8
  altName83 : Option (List UInt8)
  wantDir : Bool

/-- The result of a search. `place` is the sector and the slot of the entry, which the
source does not return. -/
structure Found where
  cluster : ℕ
  fileSize : ℕ
  place : Option (ℕ × ℕ)
deriving DecidableEq

def notFound : Found := ⟨0, 0, none⟩

abbrev Entry := ℕ → UInt8

def entryAt (s : Sector) (entry : ℕ) : Entry := fun k ↦ s (entry * 32 + k)

def entryName (de : Entry) : List UInt8 := (List.range 11).map de

/-- One round of the loop over the entries of a sector: `none` goes on to the next
entry, and a first byte of zero ends the whole search. -/
def scanEntry (w : Wanted) (de : Entry) (place : ℕ × ℕ) : Option Found :=
  let attr := de 11
  if de 0 = 0x00 then some notFound
  else if de 0 = 0xE5 then none
  else if attr = 0x0F then none
  else if attr &&& 0x08 ≠ 0 then none
  else if de 0 = 46 then none
  else if w.wantDir ∧ attr &&& 0x10 = 0 then none
  else if ¬ w.wantDir ∧ attr &&& 0x10 ≠ 0 then none
  else if entryName de = w.name83 ∨ w.altName83 = some (entryName de) then
    some ⟨ru16 de 26, ru32 de 28, some place⟩
  else none

def scanSector (w : Wanted) (sec : ℕ) (s : Sector) : Option Found :=
  (List.range 16).findSome? (fun entry ↦ scanEntry w (entryAt s entry) (sec, entry))

variable (card : Card) (w : Wanted) (purpose : Purpose)

/-- A sector that cannot be read ends the search like an end marker. -/
def scanSectors : Log → List ℕ → Option Found × Log
  | log, [] => (none, log)
  | log, sec :: secs =>
    match card.sdReadSector log sec with
    | none => (some notFound, card.record log purpose)
    | some s =>
      match scanSector w sec s with
      | some found => (some found, card.record log purpose)
      | none => scanSectors (card.record log purpose) secs

variable (b : FatBPB)

/-- The search along a chain of clusters. Nothing bounds it but the chain, so it runs
on fuel. -/
def scanChain : ℕ → Log → ℕ → Option (Found × Log)
  | 0, _, _ => none
  | fuel + 1, log, cluster =>
    match scanSectors card w purpose log (clusterSectors b cluster) with
    | (some found, log) => some (found, log)
    | (none, log) =>
      let next := fatNextCluster b card log cluster
      if fatClusValid b next then scanChain fuel (card.record log purpose) next
      else some (notFound, card.record log purpose)

def fatScanDir (fuel : ℕ) (log : Log) (startSector maxSectors startCluster : ℕ) :
    Option (Found × Log) :=
  if 2 ≤ startCluster then scanChain card w purpose b fuel log startCluster
  else
    let r := scanSectors card w purpose log
      ((List.range maxSectors).map (fun s ↦ u32 (startSector + s)))
    some (r.1.getD notFound, r.2)

def scanRoot (fuel : ℕ) (log : Log) : Option (Found × Log) :=
  if b.isFat32 then fatScanDir card w purpose b fuel log 0 0 b.rootCluster
  else fatScanDir card w purpose b fuel log b.rootDirSector b.rootDirSectors 0

end Directory

section ReadFile

variable (card : Card)

def mount : Option FatBPB × Log :=
  let log := card.record [] .boot
  match card.sdReadSector [] 0 with
  | none => (none, log)
  | some s =>
    let vbr := fatFindVbr s
    if vbr = 0 then (fatParseBpb s vbr, log)
    else
      match card.sdReadSector log vbr with
      | none => (none, card.record log .boot)
      | some s => (fatParseBpb s vbr, card.record log .boot)

variable (b : FatBPB) (name : List UInt8)

def wantedFile : Wanted := ⟨to83 name, some (to83AliasGuess name), false⟩

def wantedTables : Wanted := ⟨to83 (ascii "tables"), none, true⟩

/-- The root directory first, and the subdirectory TABLES if the file is not there. -/
def locate (fuel : ℕ) (log : Log) : Option (Found × Log) := do
  let (file, log) ← scanRoot card (wantedFile name) .root b fuel log
  if file.cluster ≠ 0 then some (file, log)
  else
    let (tables, log) ← scanRoot card wantedTables .tables b fuel log
    if tables.cluster ≠ 0 then
      fatScanDir card (wantedFile name) .tables b fuel log 0 0 tables.cluster
    else some (file, log)

/-- The variables of the copy loop. `followed` are the clusters it has entered. -/
structure Copy where
  bytesRead : ℕ
  done : Bool
  buf : Buffer
  followed : List ℕ

variable (fileSize bufSize : ℕ)

def copyBytes (s : Sector) : List ℕ → Copy → Copy
  | [], c => c
  | i :: is, c =>
    if c.done then c
    else if fileSize ≤ c.bytesRead ∨ bufSize ≤ c.bytesRead then { c with done := true }
    else copyBytes s is
      { c with
        bytesRead := c.bytesRead + 1
        buf := Function.update c.buf c.bytesRead (s i) }

/-- The flag tells whether every sector could be read. -/
def copySectors : Log → List ℕ → Copy → Bool × Copy × Log
  | log, [], c => (true, c, log)
  | log, sec :: secs, c =>
    if c.done then (true, c, log)
    else
      match card.sdReadSector log sec with
      | none => (false, c, card.record log .data)
      | some s =>
        copySectors (card.record log .data) secs (copyBytes fileSize bufSize s (List.range 512) c)

def copyChain : ℕ → Log → ℕ → Copy → Option (Bool × Copy × Log)
  | 0, _, _, _ => none
  | fuel + 1, log, cluster, c =>
    if !c.done && fatClusValid b cluster then
      match copySectors card fileSize bufSize log (clusterSectors b cluster)
        { c with followed := c.followed ++ [cluster] } with
      | (false, c, log) => some (false, c, log)
      | (true, c, log) =>
        copyChain fuel (card.record log .fat) (fatNextCluster b card log cluster) c
    else some (true, c, log)

/-- A returned call. The source returns `ret` and leaves `buf`; the rest records how it
came about. -/
structure Outcome where
  ret : ℤ
  buf : Buffer
  log : Log
  found : Found
  followed : List ℕ

def sdReadFile (fuel : ℕ) (buf : Buffer) : Option Outcome :=
  match mount card with
  | (none, log) => some ⟨-1, buf, log, notFound, []⟩
  | (some b, log) => do
    let (file, log) ← locate card b name fuel log
    if file.cluster = 0 then some ⟨-1, buf, log, file, []⟩
    else if file.fileSize = 0 then some ⟨0, buf, log, file, []⟩
    else
      let (ok, c, log) ← copyChain card b file.fileSize bufSize fuel log file.cluster
        ⟨0, false, buf, []⟩
      some ⟨if ok then c.bytesRead else -1, c.buf, log, file, c.followed⟩

end ReadFile

end FpgaDatabase.Firmware.SdDriver
