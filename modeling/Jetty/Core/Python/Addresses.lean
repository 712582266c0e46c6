import Jetty.Core.Python.Text
import Mathlib.Algebra.Group.Nat.Defs

/-!
# Addresses in numbers and dots

The numbers are decimal, octal after a `0` or hexadecimal after a `0x`. The last one fills all
bytes that the others leave.
-/

namespace Python

def dot : CodePoint := 0x2E

/-- The value of a hexadecimal digit. -/
def hexDigit (c : CodePoint) : Option ℕ :=
  if 0x30 ≤ c.val ∧ c.val ≤ 0x39 then some (c.val - 0x30)
  else if 0x61 ≤ c.val ∧ c.val ≤ 0x66 then some (c.val - 0x61 + 10)
  else if 0x41 ≤ c.val ∧ c.val ≤ 0x46 then some (c.val - 0x41 + 10)
  else none

/-- A number of one or more digits. -/
def readBase (base : ℕ) (s : Text) : Option ℕ :=
  if s = [] then none
  else (s.mapM fun c => (hexDigit c).filter (· < base)).map
    fun ds => ds.foldl (fun n d => n * base + d) 0

/-- One of the numbers of an address. -/
def addressNumber : Text → Option ℕ
  | [] => none
  | c :: cs =>
    if c ≠ 0x30 then readBase 10 (c :: cs)
    else
      match cs with
      | [] => some 0
      | x :: rest => if x = 0x78 ∨ x = 0x58 then readBase 16 rest else readBase 8 cs

/-- The value of the numbers in as many bytes as there is room for. -/
def joinNumbers : ℕ → List ℕ → Option ℕ
  | 0, _ | _, [] => none
  | room + 1, [last] => if last < 256 ^ (room + 1) then some last else none
  | room + 1, n :: ns =>
    if n < 256 then (joinNumbers room ns).map (n * 256 ^ room + ·) else none

/-- `inet_aton`. -/
def inetAton (s : Text) : Option ℕ :=
  ((s.splitOn dot).mapM addressNumber).bind (joinNumbers 4)

private theorem joinNumbers_lt {room : ℕ} {ns : List ℕ} {n : ℕ} (h : joinNumbers room ns = some n) :
    n < 256 ^ room := by
  induction ns generalizing room n with
  | nil =>
      cases room <;> cases h
  | cons m ns ih =>
      cases room with
      | zero => cases h
      | succ room =>
          cases ns with
          | nil =>
              rw [joinNumbers] at h
              split at h
              · rename_i hlt
                rwa [← Option.some.inj h]
              · cases h
          | cons m' ns =>
              rw [joinNumbers] at h
              · split at h
                · rename_i hm
                  obtain ⟨rest, hrest, rfl⟩ := Option.map_eq_some_iff.mp h
                  have hlt := ih hrest
                  rw [Nat.pow_succ, Nat.mul_comm (256 ^ room)]
                  have hroom : (m + 1) * 256 ^ room ≤ 256 * 256 ^ room :=
                    Nat.mul_le_mul_right _ hm
                  rw [Nat.add_mul, Nat.one_mul] at hroom
                  omega
                · cases h
              · exact nofun

/-- An address that begins with a number and a dot lies in the block of that number. -/
theorem block_of_inetAton {first rest : Text} {n m : ℕ} (hdot : dot ∉ first)
    (hfirst : addressNumber first = some m) (h : inetAton (first ++ dot :: rest) = some n) :
    n / 256 ^ 3 = m := by
  unfold inetAton at h
  rw [List.splitOn_append_cons_self_of_not_mem hdot, List.mapM_cons, hfirst] at h
  obtain ⟨numbers, hnumbers, hjoin⟩ := Option.bind_eq_some_iff.mp h
  obtain ⟨m', hm', hnumbers⟩ := Option.bind_eq_some_iff.mp hnumbers
  obtain ⟨ns, hns, hnumbers⟩ := Option.bind_eq_some_iff.mp hnumbers
  obtain rfl := Option.some.inj hm'
  obtain rfl := Option.some.inj hnumbers
  cases ns with
  | nil =>
      cases hsplit : rest.splitOn dot with
      | nil => exact absurd hsplit (List.splitOn_ne_nil dot rest)
      | cons part parts =>
          rw [hsplit, List.mapM_cons] at hns
          obtain ⟨k, -, hns⟩ := Option.bind_eq_some_iff.mp hns
          obtain ⟨ks, -, hns⟩ := Option.bind_eq_some_iff.mp hns
          cases hns
  | cons k ks =>
      rw [joinNumbers] at hjoin
      · split at hjoin
        · obtain ⟨tail, htail, rfl⟩ := Option.map_eq_some_iff.mp hjoin
          have hlt := joinNumbers_lt htail
          rw [Nat.mul_comm, Nat.mul_add_div (by decide), Nat.div_eq_of_lt hlt, Nat.add_zero]
        · cases hjoin
      · exact nofun

end Python
