import Chip8.Proofs.Enlargement
import Mathlib.Data.Finset.Prod

/-!
# Proofs/PixelGrid — a screen holds at each place what was set there last

Distinct places have distinct indices, so a pixel that is set is read back at its own place and nowhere else, and
clearing is read back everywhere. What was done with a screen since it was last cleared therefore tells every pixel
(`lit_deeds`), and what was done since a redraw was last asked for tells the flag (`dirty_deeds`). Setting a pixel
leaves the flag, marking and taking leave the pixels, and clearing alone changes both.
-/

namespace Chip8.Screen

variable {w h : Nat} {s s' s₀ : Screen w h} {x y : Nat}

/-! ## What is done with a screen -/

/-- What is done with a screen. -/
inductive Deed where
  /-- The pixel at `(x, y)` is lit or darkened. -/
  | set (x y : Nat) (lit : Bool)
  /-- All pixels are darkened. -/
  | clear
  /-- A redraw is asked for. -/
  | markDirty
  /-- The request to redraw is taken. -/
  | takeDirty
deriving DecidableEq

namespace Deed

/-- What it sets the pixel at `(x, y)` to, if it sets that pixel. -/
def lit? (x y : Nat) : Deed → Option Bool
  | set x' y' lit => if x' = x ∧ y' = y then some lit else none
  | _ => none

/-- Whether it asks for a redraw. -/
def asks : Deed → Bool
  | clear | markDirty => true
  | _ => false

/-- The screen after it. -/
def run (s : Screen w h) : Deed → Except Fault (Screen w h)
  | set x y lit => s.set x y lit
  | clear => .ok s.clear
  | markDirty => .ok s.markDirty
  | takeDirty => .ok s.takeDirty.2

end Deed

/-- The screen after some deeds, one after the other. -/
def deeds (s : Screen w h) (ds : List Deed) : Except Fault (Screen w h) := ds.foldlM Deed.run s

/-- What was done since the screen was last cleared, the newest first. -/
def sinceClear (ds : List Deed) : List Deed := ds.reverse.takeWhile (· ≠ .clear)

/-- What was done since a redraw was last asked for, the newest first. -/
def sinceAsked (ds : List Deed) : List Deed := ds.reverse.takeWhile (!·.asks)

/-- What the pixel at `(x, y)` was set to last since the screen was cleared; dark if it was not set. -/
def lastLit (ds : List Deed) (x y : Nat) : Bool := ((sinceClear ds).findSome? (Deed.lit? x y)).getD false

theorem lastLit_concat (ds : List Deed) (d : Deed) (x y : Nat) :
    lastLit (ds ++ [d]) x y = if d = .clear then false else (d.lit? x y).getD (lastLit ds x y) := by
  rw [lastLit, sinceClear, takeWhile_reverse_concat]
  by_cases hclear : d = .clear
  · subst hclear
    rfl
  · rw [if_pos (decide_eq_true hclear), if_neg hclear, List.findSome?_cons]
    cases d.lit? x y <;> rfl

theorem sinceAsked_concat (ds : List Deed) (d : Deed) :
    sinceAsked (ds ++ [d]) = if d.asks then [] else d :: sinceAsked ds := by
  rw [sinceAsked, takeWhile_reverse_concat]
  cases d.asks <;> rfl

/-! ## One deed -/

theorem get_eq (s : Screen w h) (x y : Nat) :
    s.get x y = if x < w ∧ y < h then .ok (s.lit x y) else .error (.pixelOutside x y w h) := by
  split
  case isTrue hin => rw [get_eq_ok hin.1 hin.2, get_eq_lit]
  case isFalse hout => rw [get, Grid.get?, dif_neg hout]

theorem outside_iff : ¬ (x < w ∧ y < h) ↔ w ≤ x ∨ h ≤ y := by
  rw [Decidable.not_and_iff_not_or_not, Nat.not_lt, Nat.not_lt]

theorem get_eq_error_iff {f : Fault} : s.get x y = .error f ↔ f = .pixelOutside x y w h ∧ (w ≤ x ∨ h ≤ y) := by
  rw [get_eq, ite_eq_error_iff, outside_iff]

theorem set_eq_error_iff {lit : Bool} {f : Fault} :
    s.set x y lit = .error f ↔ f = .pixelOutside x y w h ∧ (w ≤ x ∨ h ≤ y) := by
  rw [set, ite_eq_error_iff, outside_iff]

/-- **A deed leaves in each pixel what it sets it to**, darkness if it clears the screen, and else what was there. -/
theorem Deed.lit_run {d : Deed} (hrun : d.run s = .ok s') (hx : x < w) (hy : y < h) :
    s'.lit x y = if d = .clear then false else (d.lit? x y).getD (s.lit x y) := by
  cases d with
  | set x' y' lit =>
    obtain ⟨⟨hx', hy'⟩, rfl⟩ := ite_eq_ok_iff.1 hrun
    rw [if_neg nofun, lit_put hx' hy' hx hy, lit?]
    split <;> rfl
  | clear =>
    obtain rfl := Except.ok.inj hrun
    exact lit_new hx hy
  | markDirty | takeDirty =>
    obtain rfl := Except.ok.inj hrun
    rfl

/-- **Clearing and marking raise the flag, taking lowers it**, and setting a pixel leaves it. -/
theorem Deed.dirty_run {d : Deed} (hrun : d.run s = .ok s') :
    s'.dirty = true ↔ d.asks = true ∨ d ≠ .takeDirty ∧ s.dirty = true := by
  cases d with
  | set x' y' lit =>
    obtain ⟨-, rfl⟩ := ite_eq_ok_iff.1 hrun
    simp [asks]
  | clear | markDirty | takeDirty =>
    obtain rfl := Except.ok.inj hrun
    simp [asks, Screen.clear, Screen.markDirty, Screen.takeDirty]

/-! ## A row of deeds -/

theorem lit_deeds {ds : List Deed} (hdone : new.deeds ds = .ok s) (hx : x < w) (hy : y < h) :
    s.lit x y = lastLit ds x y := by
  refine foldlM_keeps (P := fun ds s => s.lit x y = lastLit ds x y) (lit_new hx hy) ?_ hdone
  intro ds s d s' hlit hrun
  rw [d.lit_run hrun hx hy, hlit, lastLit_concat]

theorem dirty_deeds {ds : List Deed} (hdone : (new : Screen w h).deeds ds = .ok s) :
    s.dirty = true ↔ .takeDirty ∉ sinceAsked ds := by
  refine foldlM_keeps (P := fun ds (s : Screen w h) => s.dirty = true ↔ .takeDirty ∉ sinceAsked ds)
    ⟨fun _ => List.not_mem_nil, fun _ => rfl⟩ ?_ hdone
  intro ds s d s' hdirty hrun
  rw [d.dirty_run hrun, hdirty, sinceAsked_concat]
  cases d.asks with
  | true => simp
  | false => simp [not_or, eq_comm]

/-- The lit pixels are counted by their places. -/
theorem litCount_eq_card (s : Screen w h) :
    s.litCount = ((Finset.range w ×ˢ Finset.range h).filter fun p => s.lit p.1 p.2 = true).card := by
  have hplaces : (s.places true).toFinset =
      (Finset.range w ×ˢ Finset.range h).filter fun p => s.lit p.1 p.2 = true := by
    ext p
    simp only [List.mem_toFinset, mem_places, Finset.mem_filter, Finset.mem_product, Finset.mem_range, and_assoc]
  rw [← hplaces, List.toFinset_card_of_nodup nodup_places, length_places, litCount]

/-- **A screen is a grid whose pixels are set one by one**, whatever its sides. After a row of deeds on a new screen,
each pixel is as it was set last since the screen was cleared, at its own column and row, and dark if it was not set.
The list of all pixels has them row by row, and the number of lit ones is that of the places that are lit. The flag
is raised exactly if no redraw was taken since one was last asked for, by a new screen, by clearing or by marking. To
read or to set a pixel is refused exactly if its column or its row is outside, even if its index is one of the list. -/
theorem pixels_set_last (hnew : ofSize w h = .ok s₀) {ds : List Deed} (hdone : s₀.deeds ds = .ok s) :
    (∀ x < w, ∀ y < h, s.get x y = .ok (lastLit ds x y)) ∧
    s.pixels.toList.length = w * h ∧
    (∀ x < w, ∀ y < h, s.pixels.toList[y * w + x]? = some (lastLit ds x y)) ∧
    s.litCount = ((Finset.range w ×ˢ Finset.range h).filter fun p => lastLit ds p.1 p.2 = true).card ∧
    (s.dirty = true ↔ .takeDirty ∉ sinceAsked ds) ∧
    ∀ x y f, (s.get x y = .error f ↔ f = .pixelOutside x y w h ∧ (w ≤ x ∨ h ≤ y)) ∧
      ∀ lit, s₀.deeds (ds ++ [.set x y lit]) = .error f ↔ f = .pixelOutside x y w h ∧ (w ≤ x ∨ h ≤ y) := by
  obtain ⟨-, rfl⟩ := ite_eq_ok_iff.1 hnew
  have hlit : ∀ x < w, ∀ y < h, s.lit x y = lastLit ds x y := fun x hx y hy => lit_deeds hdone hx hy
  refine ⟨fun x hx y hy => ?_, Grid.length_toList, fun x hx y hy => ?_, ?_, dirty_deeds hdone,
    fun x y f => ⟨get_eq_error_iff, fun lit => ?_⟩⟩
  · rw [get_eq, if_pos ⟨hx, hy⟩, hlit x hx y hy]
  · rw [Grid.getElem?_toList hx hy, get_eq_lit, hlit x hx y hy]
  · rw [litCount_eq_card]
    refine congrArg Finset.card (Finset.filter_congr fun p hp => ?_)
    obtain ⟨hx, hy⟩ := Finset.mem_product.1 hp
    rw [hlit p.1 (Finset.mem_range.1 hx) p.2 (Finset.mem_range.1 hy)]
  · rw [deeds, foldlM_concat hdone]
    exact set_eq_error_iff

/-- Three columns and two rows: the pixel at the left of the second row has index 3, and there is no column 3. One
pixel was set before the screen was cleared, and one was darkened again. -/
theorem pixels_set_last_wide :
    let ds : List Deed := [.set 1 0 true, .clear, .set 2 0 true, .takeDirty, .set 0 1 true, .set 2 0 false,
      .set 1 1 true]
    ∃ s₀ s : Screen 3 2, ofSize 3 2 = .ok s₀ ∧ s₀.deeds ds = .ok s ∧ s.get 1 0 = .ok false ∧
      s.get 2 0 = .ok false ∧ s.get 0 1 = .ok true ∧ s.pixels.toList[3]? = some true ∧
      s.get 3 0 = .error (.pixelOutside 3 0 3 2) ∧ s.litCount = 2 ∧ s.dirty = false := by
  intro ds
  have hnew : (ofSize 3 2 : Except Fault (Screen 3 2)) = .ok new := by decide
  obtain ⟨s, hdone⟩ : ∃ s, (new : Screen 3 2).deeds ds = .ok s := ⟨_, rfl⟩
  obtain ⟨hget, -, hindex, hcount, hdirty, hout⟩ := pixels_set_last hnew hdone
  refine ⟨new, s, hnew, hdone, (hget 1 (by decide) 0 (by decide)).trans (by decide),
    (hget 2 (by decide) 0 (by decide)).trans (by decide), (hget 0 (by decide) 1 (by decide)).trans (by decide),
    (hindex 0 (by decide) 1 (by decide)).trans (by decide), (hout 3 0 _).1.2 ⟨rfl, by decide⟩,
    hcount.trans (by decide), ?_⟩
  rw [← Bool.not_eq_true, hdirty]
  decide

end Chip8.Screen
