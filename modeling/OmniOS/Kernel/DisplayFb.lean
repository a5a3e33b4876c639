import OmniOS.Lib.CountLoop
import OmniOS.Lib.Memory

/-!
# OmniOS.Kernel.DisplayFb — the framebuffer of `kernel/bsp/sm8250/drivers/display_fb.c`

The screen is a block of memory, one little-endian word a pixel, row after row.
`display_fb_fill_rect` clips a rectangle to the screen, but takes the ends `x + w` and
`y + h` in 32 bits: a rectangle that reaches past them ends before it starts, and nothing
of it is drawn (`fillRect_painted` has the area that is).
-/

namespace OmniOS.DisplayFb

open Memory

def FB_WIDTH : UInt32 := 1080
def FB_HEIGHT : UInt32 := 2340
def FB_BPP : UInt32 := 32
def FB_STRIDE : UInt32 := FB_WIDTH * (FB_BPP / 8)
def FB_SIZE : UInt32 := FB_STRIDE * FB_HEIGHT
def FB_ADDR : UInt32 := 0x9D000000

/-- `fb_ready` and memory. -/
structure Display where
  ready : Bool
  mem : Mem

/-- The framebuffer is cleared. -/
def displayFbInit (d : Display) : Display :=
  { ready := true, mem := fill d.mem FB_SIZE.toNat FB_ADDR.toNat 0 }

/-- Width, height, bits of a pixel and address. -/
def displayFbGetInfo (d : Display) : Option (UInt32 × UInt32 × UInt32 × UInt32) :=
  if d.ready then some (FB_WIDTH, FB_HEIGHT, FB_BPP, FB_ADDR) else none

def displayFbSetPixel (x y color : UInt32) (m : Mem) : Mem :=
  if FB_WIDTH ≤ x ∨ FB_HEIGHT ≤ y then m
  else store m 4 (FB_ADDR + y * FB_STRIDE + x * 4).toNat color.toNat

/-- More turns than a 32-bit counter has values would be a loop without end. -/
def displayFbFillRect (x y w h color : UInt32) (m : Mem) : Option Mem :=
  CountLoop.run (y + h) FB_HEIGHT
    (fun row => CountLoop.run (x + w) FB_WIDTH
      (fun col m => some (displayFbSetPixel col row color m)) (2 ^ 32) x)
    (2 ^ 32) y m

/-! ## The picture -/

def pixelAddr (col row : Nat) : Nat := FB_ADDR.toNat + row * FB_STRIDE.toNat + col * 4

/-- What the screen shows. -/
def pixel (m : Mem) (col row : Nat) : Nat := load m 4 (pixelAddr col row)

def OnScreen (col row : Nat) : Prop := col < FB_WIDTH.toNat ∧ row < FB_HEIGHT.toNat

/-- The pixels of `area` on the screen are set to `color`, and nothing else is changed. -/
structure Painted (area : Nat → Nat → Prop) (color : UInt32) (m m' : Mem) : Prop where
  inside : ∀ col row, OnScreen col row → area col row → pixel m' col row = color.toNat
  outside : ∀ col row, OnScreen col row → ¬ area col row → pixel m' col row = pixel m col row
  elsewhere : ∀ a, a < FB_ADDR.toNat ∨ FB_ADDR.toNat + FB_SIZE.toNat ≤ a → m' a = m a

section Painting

variable {area area' : Nat → Nat → Prop} {color : UInt32} {m m' m'' : Mem}

theorem Painted.none (h : ∀ col row, OnScreen col row → ¬ area col row) (color : UInt32)
    (m : Mem) : Painted area color m m :=
  ⟨fun col row hon harea => absurd harea (h col row hon), fun _ _ _ _ => rfl, fun _ _ => rfl⟩

theorem Painted.congr (h : Painted area color m m')
    (hiff : ∀ col row, OnScreen col row → (area col row ↔ area' col row)) :
    Painted area' color m m' :=
  ⟨fun col row hon harea => h.inside col row hon ((hiff col row hon).mpr harea),
    fun col row hon harea => h.outside col row hon (mt (hiff col row hon).mp harea), h.elsewhere⟩

theorem Painted.trans (h : Painted area color m m') (h' : Painted area' color m' m'') :
    Painted (fun col row => area col row ∨ area' col row) color m m'' where
  inside := by
    intro col row hon harea
    by_cases hlast : area' col row
    · exact h'.inside col row hon hlast
    · rw [h'.outside col row hon hlast]
      exact h.inside col row hon (harea.resolve_right hlast)
  outside := by
    intro col row hon harea
    rw [h'.outside col row hon (mt Or.inr harea), h.outside col row hon (mt Or.inl harea)]
  elsewhere := fun a ha => (h'.elsewhere a ha).trans (h.elsewhere a ha)

/-- On the screen the address does not overflow. -/
theorem toNat_addr {x y : UInt32} (h : OnScreen x.toNat y.toNat) :
    (FB_ADDR + y * FB_STRIDE + x * 4).toNat = pixelAddr x.toNat y.toNat := by
  have hfour : (4 : UInt32).toNat = 4 := rfl
  have hstride : FB_STRIDE.toNat = 4320 := rfl
  have haddr : FB_ADDR.toNat = 0x9D000000 := rfl
  have hwidth : x.toNat < 1080 := h.1
  have hheight : y.toNat < 2340 := h.2
  rw [UInt32.toNat_add, UInt32.toNat_add, UInt32.toNat_mul, UInt32.toNat_mul, pixelAddr, hfour,
    hstride, haddr]
  omega

/-- Two pixels of the screen are apart. -/
theorem pixelAddr_apart {col row col' row' : Nat} (h : OnScreen col row) (h' : OnScreen col' row')
    (hne : ¬ (col = col' ∧ row = row')) :
    pixelAddr col row + 4 ≤ pixelAddr col' row' ∨ pixelAddr col' row' + 4 ≤ pixelAddr col row := by
  have hstride : FB_STRIDE.toNat = 4320 := rfl
  have hwidth : col < 1080 := h.1
  have hwidth' : col' < 1080 := h'.1
  unfold pixelAddr
  rw [hstride]
  omega

/-- Whoever draws with what `display_fb_get_info` reports finds the same pixels. -/
theorem pixelAddr_of_info {d : Display} {width height bpp addr : UInt32}
    (hinfo : displayFbGetInfo d = some (width, height, bpp, addr)) (col row : Nat) :
    pixelAddr col row = addr.toNat + (row * width.toNat + col) * (bpp.toNat / 8) := by
  obtain ⟨-, hinfo⟩ := Option.ite_none_right_eq_some.mp hinfo
  cases hinfo
  have hstride : FB_STRIDE.toNat = 4320 := rfl
  have hwidth : FB_WIDTH.toNat = 1080 := rfl
  have hbytes : FB_BPP.toNat / 8 = 4 := rfl
  rw [pixelAddr, hstride, hwidth, hbytes]
  omega

/-- A pixel is in the framebuffer. -/
theorem pixelAddr_bounds {col row : Nat} (h : OnScreen col row) :
    FB_ADDR.toNat ≤ pixelAddr col row ∧
      pixelAddr col row + 4 ≤ FB_ADDR.toNat + FB_SIZE.toNat := by
  have hstride : FB_STRIDE.toNat = 4320 := rfl
  have hsize : FB_SIZE.toNat = 10108800 := rfl
  have hwidth : col < 1080 := h.1
  have hheight : row < 2340 := h.2
  unfold pixelAddr
  rw [hstride, hsize]
  omega

theorem displayFbSetPixel_painted {x y : UInt32} (h : OnScreen x.toNat y.toNat) (color : UInt32)
    (m : Mem) :
    Painted (fun col row => col = x.toNat ∧ row = y.toNat) color m
      (displayFbSetPixel x y color m) := by
  have hin : ¬ (FB_WIDTH ≤ x ∨ FB_HEIGHT ≤ y) := by
    rw [UInt32.le_iff_toNat_le, UInt32.le_iff_toNat_le]
    unfold OnScreen at h
    omega
  rw [displayFbSetPixel, if_neg hin, toNat_addr h]
  refine ⟨?_, ?_, ?_⟩
  · rintro col row - ⟨rfl, rfl⟩
    exact load_store_self m color.toNat_lt
  · intro col row hon hne
    exact load_store_of_disjoint m (pixelAddr_apart hon h hne)
  · intro a ha
    have hbounds := pixelAddr_bounds h
    exact store_apply_of_notMem m (by omega)

end Painting

/-! ## The loops -/

/-- The area that is drawn: the ends wrap. -/
def Drawn (x y w h : UInt32) (col row : Nat) : Prop :=
  x.toNat ≤ col ∧ col < (x + w).toNat ∧ y.toNat ≤ row ∧ row < (y + h).toNat

/-- A row of the rectangle. -/
theorem fillRow_painted (x w : UInt32) {row : UInt32} (hrow : row < FB_HEIGHT) (color : UInt32)
    (m : Mem) :
    ∃ m', CountLoop.run (x + w) FB_WIDTH
        (fun col m => some (displayFbSetPixel col row color m)) (2 ^ 32) x m = some m' ∧
      Painted (fun col r => x.toNat ≤ col ∧ col < (x + w).toNat ∧ r = row.toNat) color m m' := by
  -- before the turn of `i`, the columns before `i` are drawn
  let Before (i : Nat) (m' : Mem) : Prop :=
    Painted (fun col r => x.toNat ≤ col ∧ col < i ∧ r = row.toNat) color m m'
  have hstep : ∀ i m', i < x + w → i < FB_WIDTH → x.toNat ≤ i.toNat ∧ Before i.toNat m' →
      ∃ m'', some (displayFbSetPixel i row color m') = some m'' ∧
        (x.toNat ≤ i.toNat + 1 ∧ Before (i.toNat + 1) m'') := by
    intro i m' _ hi hbefore
    have hon : OnScreen i.toNat row.toNat :=
      ⟨UInt32.lt_iff_toNat_lt.mp hi, UInt32.lt_iff_toNat_lt.mp hrow⟩
    have hx := hbefore.1
    refine ⟨_, rfl, by omega, ?_⟩
    refine (hbefore.2.trans (displayFbSetPixel_painted hon color m')).congr ?_
    intro col r _
    omega
  have hfuel : FB_WIDTH.toNat - x.toNat < 2 ^ 32 := by
    have hwidth : FB_WIDTH.toNat = 1080 := rfl
    omega
  have hinit : Before x.toNat m := Painted.none (by omega) color m
  rcases CountLoop.run_inv (fun i m' => x.toNat ≤ i ∧ Before i m') hstep hfuel
    ⟨Nat.le_refl _, hinit⟩ with ⟨m', hm', -, hend⟩
  refine ⟨m', hm', hend.congr ?_⟩
  intro col r hon
  have hcol := hon.1
  omega

/-- `display_fb_fill_rect` ends, and draws the area with the wrapped ends. -/
theorem fillRect_painted (x y w h color : UInt32) (m : Mem) :
    ∃ m', displayFbFillRect x y w h color m = some m' ∧ Painted (Drawn x y w h) color m m' := by
  -- before the turn of `j`, the rows before `j` are drawn
  let Before (j : Nat) (m' : Mem) : Prop :=
    Painted (fun col row => x.toNat ≤ col ∧ col < (x + w).toNat ∧ y.toNat ≤ row ∧ row < j) color
      m m'
  have hstep : ∀ j m', j < y + h → j < FB_HEIGHT → y.toNat ≤ j.toNat ∧ Before j.toNat m' →
      ∃ m'', CountLoop.run (x + w) FB_WIDTH
          (fun col m => some (displayFbSetPixel col j color m)) (2 ^ 32) x m' = some m'' ∧
        (y.toNat ≤ j.toNat + 1 ∧ Before (j.toNat + 1) m'') := by
    intro j m' _ hj hbefore
    have hy := hbefore.1
    rcases fillRow_painted x w hj color m' with ⟨m'', hm'', hpainted⟩
    refine ⟨m'', hm'', by omega, (hbefore.2.trans hpainted).congr ?_⟩
    intro col row _
    omega
  have hfuel : FB_HEIGHT.toNat - y.toNat < 2 ^ 32 := by
    have hheight : FB_HEIGHT.toNat = 2340 := rfl
    omega
  have hinit : Before y.toNat m := Painted.none (by omega) color m
  rcases CountLoop.run_inv (fun j m' => y.toNat ≤ j ∧ Before j m') hstep hfuel
    ⟨Nat.le_refl _, hinit⟩ with ⟨m', hm', -, hend⟩
  refine ⟨m', hm', hend.congr ?_⟩
  intro col row hon
  have hrow := hon.2
  unfold Drawn
  omega

/-! ## Runs -/

/-- What draws on the screen. -/
inductive Call where
  | setPixel (x y color : UInt32)
  | fillRect (x y w h color : UInt32)

namespace Call

def run : Call → Mem → Option Mem
  | setPixel x y color, m => some (displayFbSetPixel x y color m)
  | fillRect x y w h color, m => displayFbFillRect x y w h color m

def Area : Call → Nat → Nat → Prop
  | setPixel x y _, col, row => col = x.toNat ∧ row = y.toNat
  | fillRect x y w h _, col, row => Drawn x y w h col row

def color : Call → UInt32
  | setPixel _ _ color => color
  | fillRect _ _ _ _ color => color

instance (x y w h : UInt32) (col row : Nat) : Decidable (Drawn x y w h col row) :=
  inferInstanceAs (Decidable (_ ∧ _ ∧ _ ∧ _))

instance : (c : Call) → (col row : Nat) → Decidable (c.Area col row)
  | setPixel _ _ _, _, _ => inferInstanceAs (Decidable (_ ∧ _))
  | fillRect x y w h _, col, row => inferInstanceAs (Decidable (Drawn x y w h col row))

theorem run_painted (c : Call) (m : Mem) :
    ∃ m', c.run m = some m' ∧ Painted c.Area c.color m m' := by
  cases c with
  | setPixel x y color =>
      refine ⟨_, rfl, ?_⟩
      by_cases hon : OnScreen x.toNat y.toNat
      · exact displayFbSetPixel_painted hon color m
      · have hoff : FB_WIDTH ≤ x ∨ FB_HEIGHT ≤ y := by
          rw [UInt32.le_iff_toNat_le, UInt32.le_iff_toNat_le]
          unfold OnScreen at hon
          omega
        rw [displayFbSetPixel, if_pos hoff]
        refine Painted.none ?_ color m
        rintro col row hon' ⟨rfl, rfl⟩
        exact hon hon'
  | fillRect x y w h color => exact fillRect_painted x y w h color m

end Call

def runCalls (calls : List Call) (m : Mem) : Option Mem := calls.foldlM (fun m c => c.run m) m

/-- The colour of the last call that covers a pixel, or what was there before. -/
def shown (calls : List Call) (before col row : Nat) : Nat :=
  calls.foldl (fun p c => if c.Area col row then c.color.toNat else p) before

/-- Any calls end, and the screen shows what they drew. -/
theorem runCalls_shows (calls : List Call) (m : Mem) :
    ∃ m', runCalls calls m = some m' ∧
      (∀ col row, OnScreen col row → pixel m' col row = shown calls (pixel m col row) col row) ∧
      ∀ a, a < FB_ADDR.toNat ∨ FB_ADDR.toNat + FB_SIZE.toNat ≤ a → m' a = m a := by
  induction calls generalizing m with
  | nil => exact ⟨m, rfl, fun _ _ _ => rfl, fun _ _ => rfl⟩
  | cons c calls ih =>
      rcases c.run_painted m with ⟨m₁, hm₁, hpainted⟩
      rcases ih m₁ with ⟨m₂, hm₂, hshown, houtside⟩
      refine ⟨m₂, ?_, ?_, fun a ha => (houtside a ha).trans (hpainted.elsewhere a ha)⟩
      · rw [runCalls, List.foldlM_cons, hm₁]
        exact hm₂
      · intro col row hon
        rw [hshown col row hon, shown, shown, List.foldl_cons]
        by_cases harea : c.Area col row
        · rw [if_pos harea, hpainted.inside col row hon harea]
        · rw [if_neg harea, hpainted.outside col row hon harea]

/-- After `display_fb_init` the screen is black where no call drew, and the memory around the
framebuffer is as it was. -/
theorem displayFbInit_shows (d : Display) (calls : List Call) :
    ∃ m', runCalls calls (displayFbInit d).mem = some m' ∧
      (∀ col row, OnScreen col row → pixel m' col row = shown calls 0 col row) ∧
      ∀ a, a < FB_ADDR.toNat ∨ FB_ADDR.toNat + FB_SIZE.toNat ≤ a → m' a = d.mem a := by
  rcases runCalls_shows calls (displayFbInit d).mem with ⟨m', hm', hshown, houtside⟩
  refine ⟨m', hm', fun col row hon => ?_, fun a ha => ?_⟩
  · have hbounds := pixelAddr_bounds hon
    have hblack : pixel (displayFbInit d).mem col row = 0 :=
      load_eq_zero fun a ha ha' => fill_apply_of_mem d.mem (by omega)
    rw [hshown col row hon, hblack]
  · exact (houtside a ha).trans (fill_apply_of_notMem d.mem ha)

/-! ## Clipping -/

/-- The rectangle, its ends taken as integers. -/
def Rect (x y w h : UInt32) (col row : Nat) : Prop :=
  x.toNat ≤ col ∧ col < x.toNat + w.toNat ∧ y.toNat ≤ row ∧ row < y.toNat + h.toNat

/-- Whatever the framebuffer holds, the call draws the part of the rectangle that is on the
screen. -/
def Clips (x y w h color : UInt32) : Prop :=
  ∀ m, ∃ m', displayFbFillRect x y w h color m = some m' ∧ Painted (Rect x y w h) color m m'

/-- A rectangle is clipped right unless some of it is on the screen and an end is past
32 bits. -/
theorem fill_rect_clips_iff (x y w h color : UInt32) :
    Clips x y w h color ↔ w = 0 ∨ h = 0 ∨ FB_WIDTH ≤ x ∨ FB_HEIGHT ≤ y ∨
      x.toNat + w.toNat < 2 ^ 32 ∧ y.toNat + h.toNat < 2 ^ 32 := by
  have hzero : (0 : UInt32).toNat = 0 := rfl
  have hxw := UInt32.toNat_add x w
  have hyh := UInt32.toNat_add y h
  have hw := w.toNat_lt
  have hh := h.toNat_lt
  simp only [← UInt32.toNat_inj, UInt32.le_iff_toNat_le, hzero]
  constructor
  · intro hclips
    by_contra hbad
    -- the corner is on the screen, and some other colour was there
    have hon : OnScreen x.toNat y.toNat := by
      unfold OnScreen
      omega
    have hrect : Rect x y w h x.toNat y.toNat := by
      unfold Rect
      omega
    have hdrawn : ¬ Drawn x y w h x.toNat y.toNat := by
      unfold Drawn
      omega
    let old := (color.toNat + 1) % 2 ^ 32
    let m := store (fun _ => 0) 4 (pixelAddr x.toNat y.toNat) old
    have hold : pixel m x.toNat y.toNat = old := load_store_self _ (Nat.mod_lt _ (by decide))
    rcases hclips m with ⟨m', hm', hright⟩
    rcases fillRect_painted x y w h color m with ⟨m'', hm'', hpainted⟩
    obtain rfl : m' = m'' := Option.some.inj (hm'.symm.trans hm'')
    have hnew := hright.inside _ _ hon hrect
    rw [hpainted.outside _ _ hon hdrawn, hold] at hnew
    have hcolor := color.toNat_lt
    omega
  · intro hgood m
    rcases fillRect_painted x y w h color m with ⟨m', hm', hpainted⟩
    refine ⟨m', hm', hpainted.congr ?_⟩
    intro col row hon
    unfold OnScreen at hon
    unfold Drawn Rect
    omega

/-- From column 1 on, as wide as 32 bits allow: nothing is drawn. -/
theorem fill_rect_past_end :
    ¬ Clips 1 0 0xFFFFFFFF 1 0xFFFFFFFF ∧
      ∀ m, displayFbFillRect 1 0 0xFFFFFFFF 1 0xFFFFFFFF m = some m := by
  have hnone : ∀ m, displayFbFillRect 1 0 0xFFFFFFFF 1 0xFFFFFFFF m = some m := fun _ => rfl
  refine ⟨fun hclips => ?_, hnone⟩
  rcases hclips fun _ => 0 with ⟨m', hm', hpainted⟩
  obtain rfl := Option.some.inj ((hnone _).symm.trans hm')
  have hpixel := hpainted.inside 1 0 ⟨by decide, by decide⟩
    ⟨by decide, by decide, by decide, by decide⟩
  exact absurd hpixel (by decide)

end OmniOS.DisplayFb
