/-
# HeavenFox.Rootfs.FatTable -- the entries of the file allocation table

`get_fat` reads and `put_fat` changes one entry of the table, through the window.  An entry of
FAT12 is 12 bits wide, shares a byte with its neighbour and may lie across two sectors; the upper
four bits of an entry of FAT32 are not part of it.  `put_fat` changes its own entry and no other
one, also where the drive fails between the two halves of an entry (`putFat_put`).
-/
import HeavenFox.Rootfs.FatWindow

namespace HeavenFox.Rootfs

open HeavenFox.Logic

/-! ## Reading and changing entries -/

/-- `get_fat` at a failure of the drive. -/
def diskError : Nat := 0xffffffff

/-- `if (move_window(fs, sector) != FR_OK) break;` in `get_fat`. -/
def inWindow (fs : Fatfs) (sector : Nat) (next : Fatfs → Nat × Fatfs) : Nat × Fatfs :=
  if (moveWindow fs sector).1 = .ok then next (moveWindow fs sector).2
  else (diskError, (moveWindow fs sector).2)

/-- `get_fat` -/
def getFat (fs : Fatfs) (clst : Nat) : Nat × Fatfs :=
  if clst < 2 ∨ fs.nFatent ≤ clst then (1, fs)
  else
    match fs.fsType with
    | .fat12 =>
      let bc := clst + clst / 2
      inWindow fs (add32 fs.fatbase (bc / ss)) fun fs =>
        let wc := (fs.win (bc % ss)).toNat
        let bc := bc + 1
        inWindow fs (add32 fs.fatbase (bc / ss)) fun fs =>
          let wc := wc ||| (fs.win (bc % ss)).toNat <<< 8
          (if clst % 2 = 1 then wc >>> 4 else wc &&& 0xfff, fs)
    | .fat16 =>
      inWindow fs (add32 fs.fatbase (clst / (ss / 2))) fun fs =>
        (load16 fs.win (clst * 2 % ss), fs)
    | .fat32 =>
      inWindow fs (add32 fs.fatbase (clst / (ss / 4))) fun fs =>
        (load32 fs.win (clst * 4 % ss) &&& 0x0fffffff, fs)
    | .none => (1, fs)

/-- `put_fat` -/
def putFat (fs : Fatfs) (clst val : Nat) : FResult × Fatfs :=
  if 2 ≤ clst ∧ clst < fs.nFatent then
    match fs.fsType with
    | .fat12 =>
      let bc := clst + clst / 2
      andThen (moveWindow fs (add32 fs.fatbase (bc / ss))) fun fs =>
        let p := fs.win (bc % ss)
        let fs := fs.poke (store8 fs.win (bc % ss)
          (if clst % 2 = 1 then (p &&& (0x0f : UInt8)) ||| (UInt8.ofNat val <<< 4)
            else UInt8.ofNat val))
        let bc := bc + 1
        andThen (moveWindow fs (add32 fs.fatbase (bc / ss))) fun fs =>
          let p := fs.win (bc % ss)
          (.ok, fs.poke (store8 fs.win (bc % ss)
            (if clst % 2 = 1 then UInt8.ofNat (val / 2 ^ 4)
              else (p &&& (0xf0 : UInt8)) ||| (UInt8.ofNat (val / 2 ^ 8) &&& 0x0f))))
    | .fat16 =>
      andThen (moveWindow fs (add32 fs.fatbase (clst / (ss / 2)))) fun fs =>
        (.ok, fs.poke (store16 fs.win (clst * 2 % ss) val))
    | .fat32 =>
      andThen (moveWindow fs (add32 fs.fatbase (clst / (ss / 4)))) fun fs =>
        let val := (val &&& 0x0fffffff) ||| (load32 fs.win (clst * 4 % ss) &&& 0xf0000000)
        (.ok, fs.poke (store32 fs.win (clst * 4 % ss) val))
    | .none => (.intErr, fs)
  else (.intErr, fs)

/-- `clust2sect` -/
def clust2sect (fs : Fatfs) (clst : Nat) : Nat :=
  let clst := sub32 clst 2
  if sub32 fs.nFatent 2 ≤ clst then 0 else add32 (clst * fs.csize % 2 ^ 32) fs.database

/-! ## The table -/

/-- The first byte of an entry. -/
def FsType.pos : FsType → Nat → Nat
  | .fat12, c => pos12 c
  | .fat16, c => 2 * c
  | .fat32, c => 4 * c
  | .none, _ => 0

/-- The bytes that an entry has to do with. -/
def FsType.width : FsType → Nat
  | .fat12 => 2
  | .fat16 => 2
  | .fat32 => 4
  | .none => 0

/-- How many values an entry can hold. -/
def FsType.values : FsType → Nat
  | .fat12 => 2 ^ 12
  | .fat16 => 2 ^ 16
  | .fat32 => 2 ^ 28
  | .none => 2

/-- Entry `c` of a table. -/
def FsType.load : FsType → Mem → Nat → Nat
  | .fat12, m, c => load12 m c
  | .fat16, m, c => load16 m (2 * c)
  | .fat32, m, c => load32 m (4 * c) % 2 ^ 28
  | .none, _, _ => 1

namespace FatGeometry


/-- The table has room for its entries, and no entry that ends a chain is taken for a cluster. -/
structure TableOk (g : FatGeometry) : Prop where
  nFats : 1 ≤ g.nFats
  fits : ∀ c < g.nFatent, g.fsType.pos c + g.fsType.width ≤ g.fsize * ss
  ends : g.nFatent < g.fsType.values

end FatGeometry

/-- The bytes of the table. -/
def Fatfs.fat (fs : Fatfs) : Mem := fun k => fs.contents (fs.fatbase + k / ss) (k % ss)

/-- What the table holds for cluster `c`. -/
def Fatfs.entry (fs : Fatfs) (c : Nat) : Nat := fs.fsType.load fs.fat c

/-- A call that is to return `v` and to change nothing, unless the drive fails. -/
structure Fatfs.Got (fs : Fatfs) (v : Nat) (r : Nat × Fatfs) : Prop where
  keeps : fs.Keeps r.2
  value : r.1 = v ∨ r.1 = diskError ∧ ¬ fs.disk.Reliable

theorem Fatfs.Got.of_keeps {fs fs' : Fatfs} {v : Nat} {r : Nat × Fatfs} (h : fs.Keeps fs')
    (hgot : fs'.Got v r) : fs.Got v r :=
  ⟨h.trans hgot.keeps, hgot.value.imp_right fun hfail => ⟨hfail.1, mt h.reliable hfail.2⟩⟩

theorem FsType.load_congr {t : FsType} {m m' : Mem} {c : Nat}
    (h : ∀ k, t.pos c ≤ k → k < t.pos c + t.width → m' k = m k) : t.load m' c = t.load m c := by
  cases t with
  | none => rfl
  | fat12 =>
    have hword : load16 m' (pos12 c) = load16 m (pos12 c) :=
      load16_congr (h _ (Nat.le_refl _) (Nat.lt_add_of_pos_right (by decide)))
        (h _ (Nat.le_succ _) (Nat.lt_succ_self _))
    simp only [FsType.load, load12, hword]
  | fat16 =>
    exact load16_congr (h _ (Nat.le_refl _) (Nat.lt_add_of_pos_right (by decide)))
      (h _ (Nat.le_succ _) (Nat.lt_succ_self _))
  | fat32 =>
    have hword : load32 m' (4 * c) = load32 m (4 * c) := load32_congr h
    simp only [FsType.load, hword]

theorem FsType.load_lt {t : FsType} (m : Mem) (c : Nat) : t.load m c < t.values := by
  cases t with
  | none => exact Nat.lt_succ_self 1
  | fat12 =>
    have hword := load16_lt m (pos12 c)
    simp only [FsType.load, load12, FsType.values]
    split_ifs <;> omega
  | fat16 => exact load16_lt m _
  | fat32 => exact Nat.mod_lt _ (Nat.two_pow_pos 28)

/-- The table becomes `fat`, and nothing else changes. -/
structure Fatfs.FatBecomes (fs fs' : Fatfs) (fat : Mem) : Prop where
  becomes : fs.Becomes fs' fs'.contents
  frame : ∀ s, ¬ fs.Loose s → ¬ fs.InFat s → fs'.contents s = fs.contents s
  fat : ∀ k < fs.fsize * ss, fs'.fat k = fat k

theorem Fatfs.FatBecomes.trans {fs fs' fs'' : Fatfs} {fat fat' fat'' : Mem}
    (h : fs.FatBecomes fs' fat) (h' : fs'.FatBecomes fs'' fat')
    (hfat : ∀ k < fs.fsize * ss, fat' k = fat'' k) : fs.FatBecomes fs'' fat'' := by
  have hgeo := h.becomes.geometry
  refine ⟨h.becomes.trans h'.becomes fun _ _ => rfl, fun s hs hin => ?_, fun k hk => ?_⟩
  · have hs' : ¬ fs'.Loose s := by rwa [hgeo]
    have hin' : ¬ fs'.InFat s := by rwa [hgeo]
    rw [h'.frame s hs' hin', h.frame s hs hin]
  · have hk' : k < fs'.fsize * ss := by rwa [hgeo]
    rw [h'.fat k hk', hfat k hk]

/-- What a call is to do that sets entry `clst` to `val`. -/
structure Fatfs.Put (fs : Fatfs) (clst val : Nat) (r : FResult × Fatfs) : Prop where
  becomes : fs.Becomes r.2 r.2.contents
  frame : ∀ s, ¬ fs.Loose s → ¬ fs.InFat s → r.2.contents s = fs.contents s
  others : ∀ d < fs.nFatent, d ≠ clst → r.2.entry d = fs.entry d
  set : r.1 = .ok → r.2.entry clst = val % fs.fsType.values
  failed : r.1 ≠ .ok → r.1 = .diskErr ∧ ¬ fs.disk.Reliable
  atomic : r.1 ≠ .ok → fs.fsType ≠ .fat12 → r.2.entry clst = fs.entry clst
  upper : fs.fsType = .fat32 →
    ∀ d < fs.nFatent, load32 r.2.fat (4 * d) / 2 ^ 28 = load32 fs.fat (4 * d) / 2 ^ 28

/-- The table with the sector of byte `k` replaced. -/
def pokedFat (fat : Mem) (k : Nat) (win : Mem) : Mem :=
  fun x => if x / ss = k / ss then win (x % ss) else fat x

/-! ## Sectors of the table -/

/-- The byte of the table that the window shows. -/
theorem win_fat {fs : Fatfs} {win : Mem} {k : Nat} (hwin : win = fs.contents (fs.fatbase + k / ss)) :
    win (k % ss) = fs.fat k := by
  rw [hwin]
  rfl

/-- The bytes behind it in the same sector. -/
theorem win_fat_add {fs : Fatfs} {win : Mem} {k i : Nat}
    (hwin : win = fs.contents (fs.fatbase + k / ss)) (hin : k % ss + i < ss) :
    win (k % ss + i) = fs.fat (k + i) := by
  have hdiv : (k + i) / ss = k / ss := by
    unfold ss at hin ⊢
    omega
  have hmod : (k + i) % ss = k % ss + i := by
    unfold ss at hin ⊢
    omega
  rw [hwin, Fatfs.fat, hdiv, hmod]

/-- Stores into the window are stores into the table. -/
theorem pokedFat_store8 {fs : Fatfs} {win : Mem} {k : Nat} (b : UInt8)
    (hwin : win = fs.contents (fs.fatbase + k / ss)) :
    pokedFat fs.fat k (store8 win (k % ss) b) = store8 fs.fat k b := by
  funext x
  unfold pokedFat
  by_cases hsame : x / ss = k / ss
  · have hbyte : win (x % ss) = fs.fat x := by
      rw [hwin, ← hsame]
      rfl
    have h0 : x % ss = k % ss ↔ x = k := by
      unfold ss at hsame ⊢
      omega
    rw [if_pos hsame]
    simp only [store8, h0, hbyte]
  · rw [if_neg hsame, store8, if_neg (fun hx => hsame (by rw [hx]))]

theorem pokedFat_store16 {fs : Fatfs} {win : Mem} {k : Nat} (v : Nat)
    (hwin : win = fs.contents (fs.fatbase + k / ss)) (hin : k % ss + 1 < ss) :
    pokedFat fs.fat k (store16 win (k % ss) v) = store16 fs.fat k v := by
  funext x
  unfold pokedFat
  by_cases hsame : x / ss = k / ss
  · have hbyte : win (x % ss) = fs.fat x := by
      rw [hwin, ← hsame]
      rfl
    have h0 : x % ss = k % ss ↔ x = k := by
      unfold ss at hsame ⊢
      omega
    have h1 : x % ss = k % ss + 1 ↔ x = k + 1 := by
      unfold ss at hsame hin ⊢
      omega
    rw [if_pos hsame]
    simp only [store16, h0, h1, hbyte]
  · rw [if_neg hsame, store16_of_outside]
    unfold ss at hsame hin
    omega

theorem pokedFat_store32 {fs : Fatfs} {win : Mem} {k : Nat} (v : Nat)
    (hwin : win = fs.contents (fs.fatbase + k / ss)) (hin : k % ss + 3 < ss) :
    pokedFat fs.fat k (store32 win (k % ss) v) = store32 fs.fat k v := by
  funext x
  unfold pokedFat
  by_cases hsame : x / ss = k / ss
  · have hbyte : win (x % ss) = fs.fat x := by
      rw [hwin, ← hsame]
      rfl
    have h (i : Nat) (hi : i < 4) : x % ss = k % ss + i ↔ x = k + i := by
      unfold ss at hsame hin ⊢
      omega
    have h0 := h 0 (by decide)
    rw [Nat.add_zero, Nat.add_zero] at h0
    rw [if_pos hsame]
    simp only [store32, h0, h 1 (by decide), h 2 (by decide), h 3 (by decide), hbyte]
  · rw [if_neg hsame, store32_of_outside]
    unfold ss at hsame hin
    omega

/-- The upper four bits of a FAT32 entry come from the table, the others are new. -/
theorem fat32_value {val old : Nat} (hold : old < 2 ^ 32) :
    (val &&& 0x0fffffff) ||| (old &&& 0xf0000000) = old / 2 ^ 28 * 2 ^ 28 + val % 2 ^ 28 := by
  have hlow : val &&& 0x0fffffff = val % 2 ^ 28 := Nat.and_two_pow_sub_one_eq_mod val 28
  have hhigh : old &&& not32 (2 ^ 28 - 1) = old / 2 ^ 28 * 2 ^ 28 :=
    and_not32_low (by decide) hold
  rw [show not32 (2 ^ 28 - 1) = 0xf0000000 from rfl] at hhigh
  rw [hlow, hhigh, Nat.or_comm, Nat.mul_comm,
    Nat.two_pow_add_eq_or_of_lt (Nat.mod_lt val (Nat.two_pow_pos 28))]

theorem div_lt_fsize {fs : Fatfs} {k : Nat} (hk : k < fs.fsize * ss) : k / ss < fs.fsize :=
  Nat.div_lt_of_lt_mul (by rwa [Nat.mul_comm])

section Sectors

variable {fs : Fatfs} (hok : fs.WindowOk) (ht : fs.TableOk)
include hok ht

theorem fatSector_lt {q : Nat} (hq : q < fs.fsize) : fs.fatbase + q < noSector := by
  have hcopies := hok.copies
  have hone : 1 * fs.fsize ≤ fs.nFats * fs.fsize := Nat.mul_le_mul_right _ ht.nFats
  omega

theorem fatSector_add32 {q : Nat} (hq : q < fs.fsize) : add32 fs.fatbase q = fs.fatbase + q := by
  have hlt := fatSector_lt hok ht hq
  unfold noSector at hlt
  exact add32_of_lt (by omega)

/-- What happens to the first copy of the FAT is looked at. -/
theorem fatSector_not_loose {q : Nat} (hq : q < fs.fsize) : ¬ fs.Loose (fs.fatbase + q) := by
  have hlt := fatSector_lt hok ht hq
  rintro (hcopy | hinfo | hnone)
  · have hlo := hcopy.1
    omega
  · have hbefore := hok.info hinfo.1
    have heq := hinfo.2
    omega
  · omega

/-- The window may move to the first copy. -/
theorem fatSector_moved {q : Nat} (hq : q < fs.fsize) :
    fs.Moved (fs.fatbase + q) (moveWindow fs (fs.fatbase + q)) :=
  moveWindow_moved hok (Nat.le_of_lt (fatSector_lt hok ht hq))
    fun hcopy => fatSector_not_loose hok ht hq (Or.inl hcopy)

/-- The table of a volume that keeps its contents. -/
theorem fat_of_keeps {fs' : Fatfs} (h : fs.Keeps fs') {k : Nat} (hk : k < fs.fsize * ss) :
    fs'.fat k = fs.fat k := by
  have hbase : fs'.fatbase = fs.fatbase := by rw [h.geometry]
  have hs := fatSector_not_loose hok ht (div_lt_fsize hk)
  unfold Fatfs.fat
  rw [hbase, h.contents _ hs]

theorem entry_of_keeps {fs' : Fatfs} (h : fs.Keeps fs') {c : Nat} (hc : c < fs.nFatent) :
    fs'.entry c = fs.entry c := by
  have htype : fs'.fsType = fs.fsType := by rw [h.geometry]
  have hfits := ht.fits c hc
  unfold Fatfs.entry
  rw [htype]
  exact FsType.load_congr fun k _ hk => fat_of_keeps hok ht h (by omega)

/-! ## `get_fat` -/

theorem inWindow_got {v k : Nat} {next : Fatfs → Nat × Fatfs} (hk : k < fs.fsize * ss)
    (hnext : ∀ fs', fs.Keeps fs' → fs'.win = fs.contents (fs.fatbase + k / ss) →
      fs.Got v (next fs')) : fs.Got v (inWindow fs (add32 fs.fatbase (k / ss)) next) := by
  have hq := div_lt_fsize hk
  rw [fatSector_add32 hok ht hq]
  have hmove := fatSector_moved hok ht hq
  unfold inWindow
  split_ifs with hres
  · exact hnext _ hmove.keeps (hmove.win (fatSector_not_loose hok ht hq) hres)
  · exact ⟨hmove.keeps, Or.inr ⟨rfl, fun hrel => hres (hmove.reliable hrel)⟩⟩

theorem getFat_fat12 {clst : Nat} (htype : fs.fsType = .fat12) (hhi : clst < fs.nFatent) :
    fs.Got (load12 fs.fat clst)
      (inWindow fs (add32 fs.fatbase (pos12 clst / ss)) fun fs =>
        let wc := (fs.win (pos12 clst % ss)).toNat
        inWindow fs (add32 fs.fatbase ((pos12 clst + 1) / ss)) fun fs =>
          let wc := wc ||| (fs.win ((pos12 clst + 1) % ss)).toNat <<< 8
          (if clst % 2 = 1 then wc >>> 4 else wc &&& 0xfff, fs)) := by
  have hlen : pos12 clst + 2 ≤ fs.fsize * ss := by
    have hfits := ht.fits clst hhi
    rwa [htype] at hfits
  refine inWindow_got hok ht (by omega) fun fs' hkeep hwin => Fatfs.Got.of_keeps hkeep ?_
  have hlow := win_fat hwin
  have hgeo := hkeep.geometry
  have ht' : fs'.TableOk := hgeo ▸ ht
  have hsize : fs'.fsize = fs.fsize := by rw [hgeo]
  refine inWindow_got hkeep.ok ht' (by rw [hsize]; omega) fun fs'' hkeep' hwin' => ?_
  have hhigh : fs''.win ((pos12 clst + 1) % ss) = fs.fat (pos12 clst + 1) := by
    rw [win_fat hwin', fat_of_keeps hok ht hkeep (by omega)]
  have hword : (fs'.win (pos12 clst % ss)).toNat ||| (fs''.win ((pos12 clst + 1) % ss)).toNat <<< 8 =
      load16 fs.fat (pos12 clst) := by
    rw [hlow, hhigh]
    exact or_shiftLeft_byte _ _
  refine ⟨hkeep', Or.inl ?_⟩
  simp only [hword, load12, Nat.shiftRight_eq_div_pow]
  split_ifs
  · rfl
  · exact Nat.and_two_pow_sub_one_eq_mod _ 12

/-- **`get_fat` reads the entry** and changes nothing, unless the drive fails. -/
theorem getFat_got {clst : Nat} (hlo : 2 ≤ clst) (hhi : clst < fs.nFatent) :
    fs.Got (fs.entry clst) (getFat fs clst) := by
  have hfits := ht.fits clst hhi
  have hvalid : ¬ (clst < 2 ∨ fs.nFatent ≤ clst) := by omega
  unfold getFat Fatfs.entry
  rw [if_neg hvalid]
  cases htype : fs.fsType with
  | none => exact ⟨Fatfs.Keeps.refl hok, Or.inl rfl⟩
  | fat12 => exact getFat_fat12 hok ht htype hhi
  | fat16 =>
    rw [htype] at hfits
    have hlen : 2 * clst + 2 ≤ fs.fsize * ss := hfits
    have hsect : clst / (ss / 2) = 2 * clst / ss := by
      unfold ss
      omega
    show fs.Got _ (inWindow fs (add32 fs.fatbase (clst / (ss / 2))) _)
    rw [hsect]
    refine inWindow_got hok ht (by omega) fun fs' hkeep hwin => ⟨hkeep, Or.inl ?_⟩
    rw [Nat.mul_comm clst 2]
    have heven : 2 * clst % ss + 1 < ss := by
      unfold ss
      omega
    exact load16_congr (win_fat hwin) (win_fat_add hwin heven)
  | fat32 =>
    rw [htype] at hfits
    have hlen : 4 * clst + 4 ≤ fs.fsize * ss := hfits
    have hsect : clst / (ss / 4) = 4 * clst / ss := by
      unfold ss
      omega
    show fs.Got _ (inWindow fs (add32 fs.fatbase (clst / (ss / 4))) _)
    rw [hsect]
    refine inWindow_got hok ht (by omega) fun fs' hkeep hwin => ⟨hkeep, Or.inl ?_⟩
    have hin : 4 * clst % ss + 3 < ss := by
      unfold ss
      omega
    have hword : load32 fs'.win (4 * clst % ss) = load32 fs.fat (4 * clst) := by
      unfold load32
      rw [win_fat hwin, win_fat_add hwin (by omega), win_fat_add hwin (by omega),
        win_fat_add hwin hin]
    rw [Nat.mul_comm clst 4, hword]
    exact Nat.and_two_pow_sub_one_eq_mod _ 28

/-! ## `put_fat` -/

/-- A changed window over a sector of the table. -/
theorem fatBecomes_poke {k : Nat} {r : FResult × Fatfs} (hk : k < fs.fsize * ss)
    (hmove : fs.Moved (fs.fatbase + k / ss) r) (hres : r.1 = .ok) (win : Mem) :
    fs.FatBecomes (r.2.poke win) (pokedFat fs.fat k win) := by
  have hpoke := hmove.poke hres win
  refine ⟨{ hpoke with contents := fun _ _ => rfl }, ?_, ?_⟩
  · intro s hs hfat
    have hne : s ≠ fs.fatbase + k / ss := by
      rintro rfl
      have hq := div_lt_fsize hk
      exact hfat ⟨Nat.le_add_right _ _, by omega⟩
    rw [hpoke.contents s hs, Function.update_of_ne hne]
  · intro x hx
    have hbase : (r.2.poke win).fatbase = fs.fatbase := by rw [hpoke.geometry]
    have hs := fatSector_not_loose hok ht (div_lt_fsize hx)
    unfold Fatfs.fat pokedFat
    rw [hbase, hpoke.contents _ hs]
    split_ifs with hsame
    · rw [hsame, Function.update_self]
    · rw [Function.update_of_ne (by omega)]

theorem fatBecomes_of_keeps {fs' : Fatfs} (h : fs.Keeps fs') : fs.FatBecomes fs' fs.fat where
  becomes := { h with contents := fun _ _ => rfl }
  frame s hs _ := h.contents s hs
  fat _ hk := fat_of_keeps hok ht h hk

/-- `res = move_window(...); if (res != FR_OK) break;` in `put_fat`. -/
theorem andThen_rule {P : FResult × Fatfs → Prop} {k : Nat} {next : Fatfs → FResult × Fatfs}
    (hk : k < fs.fsize * ss)
    (hfail : ∀ fs', fs.Keeps fs' → ¬ fs.disk.Reliable → P (.diskErr, fs'))
    (hnext : ∀ r, fs.Moved (fs.fatbase + k / ss) r → r.1 = .ok → P (next r.2)) :
    P (andThen (moveWindow fs (add32 fs.fatbase (k / ss))) next) := by
  have hq := div_lt_fsize hk
  rw [fatSector_add32 hok ht hq]
  have hmove := fatSector_moved hok ht hq
  unfold andThen
  split_ifs with hres
  · exact hnext _ hmove hres
  · have heq := hfail _ hmove.keeps fun hrel => hres (hmove.reliable hrel)
    rwa [← hmove.res.resolve_left hres] at heq

omit hok in
theorem entry_of_fatBecomes {fs' : Fatfs} {fat : Mem} (h : fs.FatBecomes fs' fat) {c : Nat}
    (hc : c < fs.nFatent) : fs'.entry c = fs.fsType.load fat c := by
  have htype : fs'.fsType = fs.fsType := by rw [h.becomes.geometry]
  have hfits := ht.fits c hc
  unfold Fatfs.entry
  rw [htype]
  exact FsType.load_congr fun k _ hk => h.fat k (by omega)

omit hok in
/-- A word of the FAT32 table. -/
theorem word_of_fat {fs' : Fatfs} {fat : Mem} (htype : fs.fsType = .fat32) {c : Nat}
    (hc : c < fs.nFatent) (h : ∀ k < fs.fsize * ss, fs'.fat k = fat k) :
    load32 fs'.fat (4 * c) = load32 fat (4 * c) := by
  have hfits := ht.fits c hc
  rw [htype] at hfits
  have hlen : 4 * c + 4 ≤ fs.fsize * ss := hfits
  exact load32_congr fun k _ hk => h k (by omega)

omit hok in
theorem put_of_fatBecomes {fs' : Fatfs} {fat : Mem} {clst val : Nat} (h : fs.FatBecomes fs' fat)
    (hclst : clst < fs.nFatent) (hset : fs.fsType.load fat clst = val % fs.fsType.values)
    (hothers : ∀ d, d ≠ clst → fs.fsType.load fat d = fs.entry d)
    (hupper : fs.fsType = .fat32 →
      load32 fat (4 * clst) / 2 ^ 28 = load32 fs.fat (4 * clst) / 2 ^ 28 ∧
        ∀ d, d ≠ clst → load32 fat (4 * d) = load32 fs.fat (4 * d)) :
    fs.Put clst val (.ok, fs') where
  becomes := h.becomes
  frame := h.frame
  others d hd hne := (entry_of_fatBecomes ht h hd).trans (hothers d hne)
  set _ := (entry_of_fatBecomes ht h hclst).trans hset
  failed hres := absurd rfl hres
  atomic hres := absurd rfl hres
  upper htype d hd := by
    rw [word_of_fat ht htype hd h.fat]
    by_cases hne : d = clst
    · rw [hne, (hupper htype).1]
    · rw [(hupper htype).2 d hne]

theorem put_of_keeps {fs' : Fatfs} {clst val : Nat} (hclst : clst < fs.nFatent) (h : fs.Keeps fs')
    (hrel : ¬ fs.disk.Reliable) : fs.Put clst val (.diskErr, fs') where
  becomes := { h with contents := fun _ _ => rfl }
  frame s hs _ := h.contents s hs
  others d hd _ := entry_of_keeps hok ht h hd
  set hres := FResult.noConfusion hres
  failed _ := ⟨rfl, hrel⟩
  atomic _ _ := entry_of_keeps hok ht h hclst
  upper htype d hd := by
    rw [word_of_fat ht htype hd fun k hk => fat_of_keeps hok ht h hk]

theorem putFat_fat16 {clst val : Nat} (htype : fs.fsType = .fat16) (hhi : clst < fs.nFatent) :
    fs.Put clst val (andThen (moveWindow fs (add32 fs.fatbase (clst / (ss / 2)))) fun fs =>
      (.ok, fs.poke (store16 fs.win (clst * 2 % ss) val))) := by
  have hlen : 2 * clst + 2 ≤ fs.fsize * ss := by
    have hfits := ht.fits clst hhi
    rwa [htype] at hfits
  have hsect : clst / (ss / 2) = 2 * clst / ss := by
    unfold ss
    omega
  rw [hsect, Nat.mul_comm clst 2]
  refine andThen_rule hok ht (by omega) (fun fs' => put_of_keeps hok ht hhi) fun r hmove hres => ?_
  have hfat := fatBecomes_poke hok ht (by omega) hmove hres (store16 r.2.win (2 * clst % ss) val)
  have hwin := hmove.win (fatSector_not_loose hok ht (div_lt_fsize (by omega))) hres
  rw [pokedFat_store16 val hwin (by unfold ss; omega)] at hfat
  apply put_of_fatBecomes ht hfat hhi
  · rw [htype]
    exact load16_store16_same _ _ _
  · intro d hne
    unfold Fatfs.entry
    rw [htype]
    exact load16_store16_of_disjoint (by omega)
  · intro h32
    rw [htype] at h32
    cases h32

theorem putFat_fat32 {clst val : Nat} (htype : fs.fsType = .fat32) (hhi : clst < fs.nFatent) :
    fs.Put clst val (andThen (moveWindow fs (add32 fs.fatbase (clst / (ss / 4)))) fun fs =>
      let val := (val &&& 0x0fffffff) ||| (load32 fs.win (clst * 4 % ss) &&& 0xf0000000)
      (.ok, fs.poke (store32 fs.win (clst * 4 % ss) val))) := by
  have hlen : 4 * clst + 4 ≤ fs.fsize * ss := by
    have hfits := ht.fits clst hhi
    rwa [htype] at hfits
  have hsect : clst / (ss / 4) = 4 * clst / ss := by
    unfold ss
    omega
  rw [hsect, Nat.mul_comm clst 4]
  refine andThen_rule hok ht (by omega) (fun fs' => put_of_keeps hok ht hhi) fun r hmove hres => ?_
  have hwin := hmove.win (fatSector_not_loose hok ht (div_lt_fsize (by omega))) hres
  have hin : 4 * clst % ss + 3 < ss := by
    unfold ss
    omega
  have hold : load32 r.2.win (4 * clst % ss) = load32 fs.fat (4 * clst) := by
    unfold load32
    rw [win_fat hwin, win_fat_add hwin (by omega), win_fat_add hwin (by omega),
      win_fat_add hwin hin]
  simp only [hold, fat32_value (load32_lt _ _)]
  generalize hnew : load32 fs.fat (4 * clst) / 2 ^ 28 * 2 ^ 28 + val % 2 ^ 28 = new
  have hlt := load32_lt fs.fat (4 * clst)
  have hfat := fatBecomes_poke hok ht (by omega) hmove hres (store32 r.2.win (4 * clst % ss) new)
  rw [pokedFat_store32 new hwin hin] at hfat
  have hothers {d : Nat} (hne : d ≠ clst) :
      load32 (store32 fs.fat (4 * clst) new) (4 * d) = load32 fs.fat (4 * d) :=
    load32_store32_of_disjoint (by omega)
  apply put_of_fatBecomes ht hfat hhi
  · rw [htype]
    show load32 (store32 fs.fat (4 * clst) new) (4 * clst) % 2 ^ 28 = val % 2 ^ 28
    rw [load32_store32_same]
    omega
  · intro d hne
    unfold Fatfs.entry
    rw [htype]
    simp only [FsType.load, hothers hne]
  · refine fun _ => ⟨?_, fun d hne => hothers hne⟩
    rw [load32_store32_same]
    omega

/-- The two halves of a FAT12 entry are changed one after the other; the window may have to move
in between. -/
theorem putFat_fat12 {clst val : Nat} (htype : fs.fsType = .fat12) (hhi : clst < fs.nFatent) :
    fs.Put clst val (andThen (moveWindow fs (add32 fs.fatbase (pos12 clst / ss))) fun fs =>
      let fs := fs.poke (store8 fs.win (pos12 clst % ss)
        (head12 clst val (fs.win (pos12 clst % ss))))
      andThen (moveWindow fs (add32 fs.fatbase ((pos12 clst + 1) / ss))) fun fs =>
        (.ok, fs.poke (store8 fs.win ((pos12 clst + 1) % ss)
          (tail12 clst val (fs.win ((pos12 clst + 1) % ss)))))) := by
  have hlen : pos12 clst + 2 ≤ fs.fsize * ss := by
    have hfits := ht.fits clst hhi
    rwa [htype] at hfits
  refine andThen_rule hok ht (by omega) (fun fs' => put_of_keeps hok ht hhi) fun r hmove hres => ?_
  have hwin := hmove.win (fatSector_not_loose hok ht (div_lt_fsize (by omega))) hres
  have hhead := fatBecomes_poke hok ht (by omega) hmove hres
    (store8 r.2.win (pos12 clst % ss) (head12 clst val (r.2.win (pos12 clst % ss))))
  rw [pokedFat_store8 _ hwin, win_fat hwin] at hhead
  rw [win_fat hwin]
  -- the entry has its first byte, and the volume is `fs'`
  revert hhead
  generalize r.2.poke _ = fs'
  intro hhead
  have hgeo := hhead.becomes.geometry
  have hok' := hhead.becomes.ok
  have ht' : fs'.TableOk := hgeo ▸ ht
  have hsize : fs'.fsize = fs.fsize := by rw [hgeo]
  refine andThen_rule hok' ht' (by rw [hsize]; omega) (fun fs'' hkeep hrel => ?_)
    fun r' hmove' hres' => ?_
  · have hhalf : fs.FatBecomes fs'' (storeHead fs.fat clst val) :=
      hhead.trans (fatBecomes_of_keeps hok' ht' hkeep) hhead.fat
    refine ⟨hhalf.becomes, hhalf.frame, fun d hd hne => ?_, FResult.noConfusion,
      fun _ => ⟨rfl, mt hhead.becomes.reliable hrel⟩, fun _ hne => absurd htype hne, ?_⟩
    · rw [entry_of_fatBecomes ht hhalf hd, Fatfs.entry, htype]
      exact load12_storeHead_of_ne hne
    · intro h32
      rw [htype] at h32
      cases h32
  · have hk' : pos12 clst + 1 < fs'.fsize * ss := by
      rw [hsize]
      omega
    have hwin' := hmove'.win (fatSector_not_loose hok' ht' (div_lt_fsize hk')) hres'
    have htail := fatBecomes_poke hok' ht' hk' hmove' hres' (store8 r'.2.win
      ((pos12 clst + 1) % ss) (tail12 clst val (r'.2.win ((pos12 clst + 1) % ss))))
    rw [pokedFat_store8 _ hwin', win_fat hwin'] at htail
    rw [win_fat hwin']
    have hfat : ∀ k < fs.fsize * ss,
        store8 fs'.fat (pos12 clst + 1) (tail12 clst val (fs'.fat (pos12 clst + 1))) k =
          storeTail (storeHead fs.fat clst val) clst val k := by
      intro k hk
      unfold storeTail store8
      rw [hhead.fat _ (by omega), hhead.fat k hk]
      rfl
    apply put_of_fatBecomes ht (hhead.trans htail hfat) hhi
    · rw [htype]
      exact load12_store_same
    · intro d hne
      rw [Fatfs.entry, htype]
      exact (load12_storeTail_of_ne hne).trans (load12_storeHead_of_ne hne)
    · intro h32
      rw [htype] at h32
      cases h32

/-- **`put_fat` sets one entry.**  No other entry and no sector outside the table changes, the upper
bits of the words of FAT32 stay, and only a failure of the drive stops it; then the entry itself is
as it was, unless it is one of FAT12. -/
theorem putFat_put {clst : Nat} (val : Nat) (hlo : 2 ≤ clst) (hhi : clst < fs.nFatent)
    (htype : fs.fsType ≠ .none) : fs.Put clst val (putFat fs clst val) := by
  unfold putFat
  rw [if_pos ⟨hlo, hhi⟩]
  cases h : fs.fsType with
  | none => exact absurd h htype
  | fat12 => exact putFat_fat12 hok ht h hhi
  | fat16 => exact putFat_fat16 hok ht h hhi
  | fat32 => exact putFat_fat32 hok ht h hhi

end Sectors

end HeavenFox.Rootfs
