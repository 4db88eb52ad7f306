import Os161.Kern.Base

/-!
# The clock of `ltimer`

`ltimer_gettime` reads the seconds before and after the nanoseconds, and takes the later value if
a second may have begun between the reads.
-/
namespace Os161.Io

/-- The registers of the clock at a time in nanoseconds. -/
def regSec (t : Nat) : CUnsigned := BitVec.ofNat 32 (t / 10 ^ 9)

def regNsec (t : Nat) : CUnsigned := BitVec.ofNat 32 (t % 10 ^ 9)

/-- A call, by the times of its three reads. -/
structure Reads where
  t1 : Nat
  t2 : Nat
  t3 : Nat
  close : t1 ≤ t2 ∧ t2 ≤ t3 ∧ t3 - t1 < 5000000

/-- The seconds are a `time_t`, which has a sign. -/
def Reads.ltimerGettime (r : Reads) : CInt × CUnsigned :=
  let secs1 := regSec r.t1
  let nsecs := regNsec r.t2
  let secs2 := regSec r.t3
  (if nsecs < 5000000 then secs2 else secs1, nsecs)

def nanoseconds (time : CInt × CUnsigned) : Int := time.1.toInt * 10 ^ 9 + time.2.toNat

theorem toNat_regNsec (t : Nat) : (regNsec t).toNat = t % 10 ^ 9 := by
  rw [regNsec, BitVec.toNat_ofNat]
  omega

/-- The boundary of a second does not fall between the reads that are used. -/
theorem Reads.ltimerGettime_eq (r : Reads) : r.ltimerGettime = (regSec r.t2, regNsec r.t2) := by
  obtain ⟨t1, t2, t3, close⟩ := r
  have limit : (5000000 : CUnsigned).toNat = 5000000 := rfl
  simp only [ltimerGettime, BitVec.lt_def, toNat_regNsec, limit, regSec]
  split
  · rw [show t3 / 10 ^ 9 = t2 / 10 ^ 9 by omega]
  · rw [show t1 / 10 ^ 9 = t2 / 10 ^ 9 by omega]

private theorem nanoseconds_ltimerGettime (r : Reads) :
    nanoseconds r.ltimerGettime = r.t2 ↔ r.t2 < 2 ^ 31 * 10 ^ 9 := by
  have secs : (regSec r.t2).toNat = r.t2 / 10 ^ 9 % 2 ^ 32 := by rw [regSec, BitVec.toNat_ofNat]
  have sign := BitVec.toInt_eq_toNat_cond (regSec r.t2)
  simp only [nanoseconds, r.ltimerGettime_eq, toNat_regNsec]
  -- From 2 ^ 31 seconds on the sign or the wrap of the register takes at least 2 ^ 32 seconds off.
  split at sign <;> omega

/-- What a call returns is the clock at its second read. It is that time, and a later call
returns no earlier one, exactly while the seconds fit a `time_t`. -/
theorem gettime_exact (r next : Reads) (later : r.t2 ≤ next.t2) :
    r.ltimerGettime = (regSec r.t2, regNsec r.t2) ∧
      (nanoseconds r.ltimerGettime = r.t2 ↔ r.t2 < 2 ^ 31 * 10 ^ 9) ∧
      (nanoseconds r.ltimerGettime = r.t2 ∧ nanoseconds next.ltimerGettime = next.t2 ∧
          nanoseconds r.ltimerGettime ≤ nanoseconds next.ltimerGettime ↔
        next.t2 < 2 ^ 31 * 10 ^ 9) := by
  have first := nanoseconds_ltimerGettime r
  have second := nanoseconds_ltimerGettime next
  refine ⟨r.ltimerGettime_eq, first, fun exact => second.mp exact.2.1, fun early => ?_⟩
  have exact := first.mpr (by omega)
  have nextExact := second.mpr early
  exact ⟨exact, nextExact, by omega⟩

/-- A second begins between the reads of each call. -/
theorem gettime_exact_boundary :
    nanoseconds (Reads.ltimerGettime ⟨999999999, 1000000000, 1000000000, by decide⟩) = 10 ^ 9 :=
  ((gettime_exact ⟨999999999, 1000000000, 1000000000, by decide⟩
    ⟨1999999999, 2000000000, 2000000000, by decide⟩ (by decide)).2.2.mpr (by decide)).1

/-- After `2 ^ 31` seconds the time goes back. -/
theorem gettime_goes_back : nanoseconds (Reads.ltimerGettime
      ⟨2 ^ 31 * 10 ^ 9, 2 ^ 31 * 10 ^ 9, 2 ^ 31 * 10 ^ 9, by decide⟩) <
    nanoseconds (Reads.ltimerGettime ⟨0, 0, 0, by decide⟩) := by decide

end Os161.Io
