import DsaSolver.Theory.Packing

/-! # Rounding positions to a grid

Positions are stretched by `1 + 1 / e` and rounded down to multiples of a step `q`, sizes are
rounded up to multiples of `q`.  When every size is at least `e * q`, disjoint ranges stay
disjoint (`gridIndex_apart`), and what fits below a limit fits below the limit enlarged by its
`e`-th part (`gridIndex_top`). -/

namespace Theory

/-- The multiple of `q` a position is moved to. -/
def gridIndex (e q x : ℕ) : ℕ := x * (e + 1) / (e * q)

theorem gridIndex_mul_le (e q x : ℕ) : gridIndex e q x * (e * q) ≤ x * (e + 1) :=
  Nat.div_mul_le_self _ _

theorem alignUp_lt {q : ℕ} (hq : 0 < q) (s : ℕ) : alignUp s q < s + q := by
  have := Nat.mod_lt (q - s % q) hq
  unfold alignUp
  omega

/-- One stretched range stays below the next. -/
theorem gridIndex_le {e q x s y : ℕ} (he : 0 < e) (hq : 0 < q) (hs : e * q ≤ s)
    (h : x + s ≤ y) : gridIndex e q x * q + alignUp s q ≤ gridIndex e q y * q := by
  obtain ⟨u, hu⟩ := dvd_alignUp hq s
  have hlt := alignUp_lt hq s
  have hx := gridIndex_mul_le e q x
  have hstretch : (gridIndex e q x + u) * (e * q) ≤ y * (e + 1) := by
    have hy := Nat.mul_le_mul_right (e + 1) h
    have hround : e * (q * u) ≤ e * (s + q) := Nat.mul_le_mul_left e (by omega)
    calc (gridIndex e q x + u) * (e * q)
        = gridIndex e q x * (e * q) + e * (q * u) := by ring
      _ ≤ x * (e + 1) + e * (s + q) := Nat.add_le_add hx hround
      _ = x * (e + 1) + e * s + e * q := by ring
      _ ≤ x * (e + 1) + e * s + s := Nat.add_le_add_left hs _
      _ = (x + s) * (e + 1) := by ring
      _ ≤ y * (e + 1) := hy
  have hindex : gridIndex e q x + u ≤ gridIndex e q y :=
    (Nat.le_div_iff_mul_le (Nat.mul_pos he hq)).mpr hstretch
  have := Nat.mul_le_mul_right q hindex
  rw [hu]
  calc gridIndex e q x * q + q * u = (gridIndex e q x + u) * q := by ring
    _ ≤ gridIndex e q y * q := this

/-- Disjoint ranges stay disjoint. -/
theorem gridIndex_apart {e q x s y t : ℕ} (he : 0 < e) (hq : 0 < q) (hs : e * q ≤ s)
    (ht : e * q ≤ t) (h : Apart x s y t) :
    Apart (gridIndex e q x * q) (alignUp s q) (gridIndex e q y * q) (alignUp t q) := by
  obtain h | h := h
  · exact .inl (gridIndex_le he hq hs h)
  · exact .inr (gridIndex_le he hq ht h)

/-- What fits below `limit` fits below the limit enlarged by its `e`-th part, rounded up. -/
theorem gridIndex_top {e q x s limit slack : ℕ} (he : 0 < e) (hq : 0 < q) (hs : e * q ≤ s)
    (h : x + s ≤ limit) (hslack : limit ≤ e * slack) :
    gridIndex e q x * q + alignUp s q ≤ limit + slack := by
  have hlt := alignUp_lt hq s
  have hx := gridIndex_mul_le e q x
  have hscaled : e * (gridIndex e q x * q + alignUp s q) ≤ e * (limit + slack) := by
    have hlimit := Nat.mul_le_mul_right (e + 1) h
    have hround : e * alignUp s q ≤ e * (s + q) := Nat.mul_le_mul_left e (by omega)
    calc e * (gridIndex e q x * q + alignUp s q)
        = gridIndex e q x * (e * q) + e * alignUp s q := by ring
      _ ≤ x * (e + 1) + e * (s + q) := Nat.add_le_add hx hround
      _ = x * (e + 1) + e * s + e * q := by ring
      _ ≤ x * (e + 1) + e * s + s := Nat.add_le_add_left hs _
      _ = (x + s) * (e + 1) := by ring
      _ ≤ limit * (e + 1) := hlimit
      _ = e * limit + limit := by ring
      _ ≤ e * limit + e * slack := Nat.add_le_add_left hslack _
      _ = e * (limit + slack) := by ring
  exact Nat.le_of_mul_le_mul_left hscaled he

end Theory
