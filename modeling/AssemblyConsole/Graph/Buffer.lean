import AssemblyConsole.Graph.Basic

/-!
Bytes at consecutive addresses.
-/

namespace AssemblyConsole

structure Buffer where
  base : Int
  data : Bytes
deriving DecidableEq, Repr

namespace Buffer

def stop (b : Buffer) : Int := b.base + b.data.length

/-- The address is that of a byte of the buffer. -/
def Holds (b : Buffer) (a : Int) : Prop := b.base ≤ a ∧ a < b.stop

instance (b : Buffer) (a : Int) : Decidable (b.Holds a) := inferInstanceAs (Decidable (_ ∧ _))

def bytesFrom (b : Buffer) (a : Int) : Bytes := b.data.drop (a - b.base).toNat

def addresses (b : Buffer) : List Int := (List.range b.data.length).map fun (i : Nat) => b.base + i

/-- The addresses of the buffer at which no block begins. -/
def uncovered (b : Buffer) (starts : List Int) : List Int := b.addresses.filter (· ∉ starts)

theorem not_holds_of_no_bytes {b : Buffer} (h : b.data = []) (a : Int) : ¬b.Holds a := by
  simp only [Holds, stop, h, List.length_nil]
  omega

theorem mem_addresses (b : Buffer) (a : Int) : a ∈ b.addresses ↔ b.Holds a := by
  simp only [addresses, List.mem_map, List.mem_range, Holds, stop]
  constructor
  · rintro ⟨i, hi, rfl⟩
    omega
  · intro h
    exact ⟨(a - b.base).toNat, by omega, by omega⟩

theorem length_filter_lt {α : Type} {p q : α → Bool} {xs : List α} (h : ∀ x, q x = true → p x = true)
    {x : α} (hx : x ∈ xs) (hp : p x = true) (hq : q x = false) : (xs.filter q).length < (xs.filter p).length := by
  induction xs with
  | nil => simp at hx
  | cons y ys ih =>
    have hle : (ys.filter q).length ≤ (ys.filter p).length := by
      clear ih hx
      induction ys with
      | nil => simp
      | cons z zs ih =>
        by_cases hz : q z = true
        · simp [hz, h z hz, ih]
        · by_cases hz' : p z = true <;> simp [hz, hz'] <;> omega
    rcases List.mem_cons.mp hx with rfl | hx
    · simp [hp, hq]
      omega
    · have := ih hx
      by_cases hy : q y = true
      · simp [hy, h y hy, this]
      · by_cases hy' : p y = true <;> simp [hy, hy'] <;> omega

theorem uncovered_append_lt {b : Buffer} {starts : List Int} {a : Int} (ha : b.Holds a) (hn : a ∉ starts) :
    (b.uncovered (starts ++ [a])).length < (b.uncovered starts).length := by
  apply length_filter_lt (x := a)
  · intro x hx
    simp only [decide_eq_true_eq, List.mem_append, not_or] at hx ⊢
    exact hx.1
  · exact (b.mem_addresses a).mpr ha
  · simpa using hn
  · simp

end Buffer

end AssemblyConsole
