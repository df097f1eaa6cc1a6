import QuantumRelay.Proofs.Statevector.Index
import QuantumRelay.Statevector.Operation

/-!
# Sweeps

A sweep updates amplitudes in place, so what an index finds may have been written before. It has not
been if no place belongs to two indices: `owner p` is then the only index to which `p` can belong, and
what the sweep leaves at `p` is what a single update there makes of the old state (`amplitude_sweep`).

Every operation is told by a formula for the new amplitude at an index in terms of the old ones
(`flipIf_eq` and so on), for all qubits, whether they are distinct and in range or not.
-/

namespace QuantumRelay.Statevector

open BasisIndex

variable {A R : Type}

/-! ### Updates -/

theorem getElem?_writeAt_of_not_mem {a : Array A} {places : List Nat} {values : List A} {p : Nat}
    (h : p ∉ places) : (writeAt a places values)[p]? = a[p]? := by
  induction places generalizing a values with
  | nil => rfl
  | cons q rest ih =>
    rw [List.mem_cons, not_or] at h
    cases values with
    | nil => rfl
    | cons x values => exact (ih h.2).trans (Array.getElem?_setIfInBounds_ne (Ne.symm h.1))

theorem getElem?_writeAt_congr {a b : Array A} {p : Nat} (h : a[p]? = b[p]?) (places : List Nat)
    (values : List A) : (writeAt a places values)[p]? = (writeAt b places values)[p]? := by
  induction places generalizing a b values with
  | nil => exact h
  | cons q rest ih =>
    cases values with
    | nil => exact h
    | cons x values =>
      refine ih ?_ values
      by_cases hq : q = p
      · subst hq
        have hsize : q < a.size ↔ q < b.size := by
          rw [← not_iff_not, Nat.not_lt, Nat.not_lt, ← Array.getElem?_eq_none_iff, h,
            Array.getElem?_eq_none_iff]
        simp only [Array.getElem?_setIfInBounds, if_true, hsize]
      · rw [Array.getElem?_setIfInBounds_ne hq, Array.getElem?_setIfInBounds_ne hq, h]

theorem getElem?_writeAt {a : Array A} {places : List Nat} {values : List A} {p k : Nat} {x : A}
    (hp : p < a.size) (hk : places[k]? = some p) (hlast : ∀ j, k < j → places[j]? ≠ some p)
    (hx : values[k]? = some x) : (writeAt a places values)[p]? = some x := by
  induction places generalizing a values k with
  | nil => cases hk
  | cons q rest ih =>
    cases values with
    | nil => cases hx
    | cons y values =>
      cases k with
      | zero =>
        obtain rfl := Option.some.inj hk
        obtain rfl := Option.some.inj hx
        have hrest : q ∉ rest := by
          intro hmem
          obtain ⟨j, hj⟩ := List.mem_iff_getElem?.1 hmem
          exact hlast (j + 1) (Nat.succ_pos j) hj
        refine (getElem?_writeAt_of_not_mem hrest).trans ?_
        rw [Array.getElem?_setIfInBounds_self_of_lt hp]
      | succ k =>
        refine ih (by rwa [Array.size_setIfInBounds]) hk (fun j hj => ?_) hx
        exact hlast (j + 1) (Nat.succ_lt_succ hj)

/-! ### Places with one owner -/

section owner

variable [Zero A] {places : Nat → List Nat} {f : List A → List A} {owner : Nat → Nat} {p : Nat}

theorem getElem?_sweepTo_of_not_mem {n : Nat} {a : Array A} (h : ∀ i < n, p ∉ places i) :
    (sweepTo places f n a)[p]? = a[p]? := by
  induction n with
  | zero => rfl
  | succ n ih =>
    rw [sweepTo, Nat.fold_succ]
    refine (getElem?_writeAt_of_not_mem (h n (Nat.lt_succ_self n))).trans ?_
    exact ih fun i hi => h i (Nat.lt_succ_of_lt hi)

theorem getElem?_sweepTo_owner (howner : ∀ i p, p ∈ places i → owner p = i) (a : Array A) :
    (sweepTo places f (owner p) a)[p]? = a[p]? := by
  refine getElem?_sweepTo_of_not_mem fun i hi hmem => ?_
  exact absurd (howner i p hmem) (Nat.ne_of_gt hi)

theorem getElem?_sweepTo (howner : ∀ i p, p ∈ places i → owner p = i) {n : Nat} (h : owner p < n)
    (a : Array A) : (sweepTo places f n a)[p]? = (updateAt f (places (owner p)) a)[p]? := by
  induction n with
  | zero => cases h
  | succ n ih =>
    rw [sweepTo, Nat.fold_succ]
    rcases Nat.lt_succ_iff_lt_or_eq.1 h with hlt | rfl
    · have hmem : p ∉ places n := fun hmem => Nat.ne_of_lt hlt (howner n p hmem)
      exact (getElem?_writeAt_of_not_mem hmem).trans (ih hlt)
    · have hread : (places (owner p)).map (fun q => (sweepTo places f (owner p) a)[q]?.getD 0) =
          (places (owner p)).map fun q => a[q]?.getD 0 := by
        refine List.map_congr_left fun q hq => ?_
        rw [← howner _ q hq, getElem?_sweepTo_owner howner]
      change (updateAt f _ (sweepTo places f (owner p) a))[p]? = _
      rw [updateAt, hread]
      exact getElem?_writeAt_congr (getElem?_sweepTo_owner howner a) ..

variable {s : Statevector A}

theorem amplitude_sweep_of_not_mem (howner : ∀ i p, p ∈ places i → owner p = i)
    (h : p ∉ places (owner p)) : (s.sweep places f).amplitude p = s.amplitude p := by
  have hall : ∀ i < count s.width, p ∉ places i := by
    intro i _ hmem
    rw [howner i p hmem] at h
    exact h hmem
  rw [sweep, amplitude, getElem?_sweepTo_of_not_mem hall, amplitude]

/-- The new amplitude at a place of an index is the one that its update writes there last, given the old
amplitudes at all its places. -/
theorem amplitude_sweep (howner : ∀ i p, p ∈ places i → owner p = i) (hp : p < count s.width) {i k : Nat}
    (hi : i < count s.width) (hk : (places i)[k]? = some p)
    (hlast : ∀ j, k < j → (places i)[j]? ≠ some p) {x : A}
    (hx : (f ((places i).map s.amplitude))[k]? = some x) : (s.sweep places f).amplitude p = x := by
  obtain rfl := howner i p (List.mem_of_getElem? hk)
  have hsize : p < s.amplitudes.size := s.size_eq ▸ hp
  rw [sweep, amplitude, getElem?_sweepTo howner hi]
  exact (congrArg (·.getD 0) (getElem?_writeAt hsize hk hlast hx)).trans (Option.getD_some ..)

/-! ### Two places -/

section two

variable {i j : Nat} {x y : A}

theorem amplitude_sweep_fst (howner : ∀ i p, p ∈ places i → owner p = i) (hplaces : places i = [i, j])
    (hne : i ≠ j) (hi : i < count s.width) (hf : f [s.amplitude i, s.amplitude j] = [x, y]) :
    (s.sweep places f).amplitude i = x := by
  refine amplitude_sweep howner hi hi (k := 0) (by rw [hplaces]; rfl) (fun k hk => ?_) ?_
  · rw [hplaces]
    match k, hk with
    | 1, _ => exact fun h => hne (Option.some.inj h).symm
    | k + 2, _ => simp
  · rw [hplaces, List.map_cons, List.map_cons, List.map_nil, hf]
    rfl

theorem amplitude_sweep_snd (howner : ∀ i p, p ∈ places i → owner p = i) (hplaces : places i = [i, j])
    (hi : i < count s.width) (hj : j < count s.width)
    (hf : f [s.amplitude i, s.amplitude j] = [x, y]) : (s.sweep places f).amplitude j = y := by
  refine amplitude_sweep howner hj hi (k := 1) (by rw [hplaces]; rfl) (fun k hk => ?_) ?_
  · rw [hplaces]
    match k, hk with
    | k + 2, _ => simp
  · rw [hplaces, List.map_cons, List.map_cons, List.map_nil, hf]
    rfl

end two

end owner

/-! ### Pairs -/

theorem owner_pairAt {controls : List Nat} {target : Nat} (i p : Nat)
    (h : p ∈ pairAt controls target i) : withBit p target false = i := by
  unfold pairAt at h
  split at h
  · next hi =>
    have hzero : i.testBit target = false := by simp_all
    obtain rfl | rfl : p = i ∨ p = withBit i target true := by simpa using h
    · exact withBit_of_eq hzero
    · rw [withBit_withBit, withBit_of_eq hzero]
  · cases h

theorem sweep_pairAt [Zero A] (s : Statevector A) (controls : List Nat) (target : Nat)
    {f : List A → List A} {low high : A → A → A} (hf : ∀ x y, f [x, y] = [low x y, high x y]) :
    s.sweep (pairAt controls target) f = s.gather fun a i =>
      if controls.all (withBit i target false).testBit then
        (if i.testBit target then high else low) (a (withBit i target false)) (a (withBit i target true))
      else a i := by
  refine ext_amplitude rfl fun i (hi : i < count s.width) => ?_
  have hlow : withBit i target false < count s.width := withBit_false_lt_count hi target
  have hplaces : pairAt controls target (withBit i target false) =
      if controls.all (withBit i target false).testBit then
        [withBit i target false, withBit i target true] else [] := by
    simp [pairAt, testBit_withBit]
  rw [amplitude_gather _ _ hi]
  split
  · next hcontrols =>
    rw [if_pos hcontrols] at hplaces
    cases hbit : i.testBit target with
    | false =>
      have hi_eq : withBit i target false = i := withBit_of_eq hbit
      have hne : i ≠ withBit i target true := by
        intro heq
        rw [heq, testBit_withBit, if_pos rfl] at hbit
        cases hbit
      rw [hi_eq] at hplaces ⊢
      exact amplitude_sweep_fst owner_pairAt hplaces hne hi (hf _ _)
    | true =>
      have hi_eq : withBit i target true = i := withBit_of_eq hbit
      rw [hi_eq] at hplaces ⊢
      exact amplitude_sweep_snd owner_pairAt hplaces hlow hi (hf _ _)
  · next hcontrols =>
    rw [if_neg hcontrols] at hplaces
    exact amplitude_sweep_of_not_mem owner_pairAt (by simp [hplaces])

/-! ### Exchanges -/

theorem exchangeAt_eq {width : Nat} {controls : List Nat} {left right i : Nat} (hleft : left < width)
    (hright : right < width) (hcontrols : controls.all i.testBit = true)
    (hone : i.testBit left = true) (hzero : i.testBit right = false) :
    exchangeAt width controls left right i = [i, flip (flip i left) right] := by
  rw [exchangeAt, if_pos (by simp [hleft, hright, hcontrols, hone, hzero])]

theorem mem_exchangeAt {width : Nat} {controls : List Nat} {left right i p : Nat}
    (h : p ∈ exchangeAt width controls left right i) :
    left < width ∧ right < width ∧ controls.all i.testBit = true ∧ i.testBit left = true ∧
      i.testBit right = false ∧ (p = i ∨ p = flip (flip i left) right) := by
  by_cases hi : (left < width && right < width && controls.all i.testBit && i.testBit left &&
      !i.testBit right) = true
  · obtain ⟨⟨⟨⟨hleft, hright⟩, hcontrols⟩, hone⟩, hzero⟩ :
        (((left < width ∧ right < width) ∧ controls.all i.testBit = true) ∧ i.testBit left = true) ∧
          i.testBit right = false := by
      simpa only [Bool.and_eq_true, Bool.not_eq_true', decide_eq_true_eq] using hi
    rw [exchangeAt_eq hleft hright hcontrols hone hzero] at h
    exact ⟨hleft, hright, hcontrols, hone, hzero, by simpa using h⟩
  · rw [exchangeAt, if_neg hi] at h
    cases h

theorem owner_exchangeAt {width : Nat} {controls : List Nat} {left right : Nat} (i p : Nat)
    (h : p ∈ exchangeAt width controls left right i) :
    withBit (withBit p left true) right false = i := by
  obtain ⟨-, -, -, hone, hzero, rfl | rfl⟩ := mem_exchangeAt h
  · rw [withBit_of_eq hone, withBit_of_eq hzero]
  · exact withBit_flip_flip hone hzero

theorem sweep_exchangeAt [Zero A] (s : Statevector A) (controls : List Nat) (left right : Nat)
    {f : List A → List A} {g : A → A} (hf : ∀ x y, f [x, y] = [g y, g x]) :
    s.sweep (exchangeAt s.width controls left right) f = s.gather fun a i =>
      if (left < s.width && right < s.width && i.testBit left ≠ i.testBit right) &&
          controls.all (withBit (withBit i left true) right false).testBit then
        g (a (flip (flip i left) right))
      else a i := by
  refine ext_amplitude rfl fun i (hi : i < count s.width) => ?_
  rw [amplitude_gather _ _ hi]
  split
  · next hcond =>
    obtain ⟨⟨⟨hleft, hright⟩, hdiffer⟩, hcontrols⟩ :
        ((left < s.width ∧ right < s.width) ∧ i.testBit left ≠ i.testBit right) ∧
          controls.all (withBit (withBit i left true) right false).testBit = true := by
      simpa only [Bool.and_eq_true, decide_eq_true_eq] using hcond
    have hne : left ≠ right := fun heq => hdiffer (heq ▸ rfl)
    cases hone : i.testBit left with
    | true =>
      have hzero : i.testBit right = false := by simpa [hone] using hdiffer
      rw [withBit_of_eq hone, withBit_of_eq hzero] at hcontrols
      have hself : i ≠ flip (flip i left) right := by
        intro heq
        have hbit := flip_flip_testBit_left hne i
        rw [← heq, hone] at hbit
        cases hbit
      exact amplitude_sweep_fst owner_exchangeAt (exchangeAt_eq hleft hright hcontrols hone hzero) hself
        hi (hf _ _)
    | false =>
      -- Here the index comes second, at the places of the one with both qubits inverted.
      have hother : flip (flip i left) right < count s.width :=
        flip_lt_count (flip_lt_count hi hleft) hright
      have hleft_one : (flip (flip i left) right).testBit left = true := by
        rw [flip_flip_testBit_left hne, hone, Bool.not_false]
      have hright_zero : (flip (flip i left) right).testBit right = false := by
        rw [flip_flip_testBit_right hne]
        simpa [hone] using hdiffer
      have hbase := withBit_flip_flip hleft_one hright_zero
      rw [flip_flip_twice] at hbase
      rw [hbase] at hcontrols
      have hplaces := exchangeAt_eq hleft hright hcontrols hleft_one hright_zero
      rw [flip_flip_twice] at hplaces
      exact amplitude_sweep_snd owner_exchangeAt hplaces hother hi (hf _ _)
  · next hcond =>
    refine amplitude_sweep_of_not_mem owner_exchangeAt fun hmem => hcond ?_
    obtain ⟨hleft, hright, hcontrols, hone, hzero, hp⟩ := mem_exchangeAt hmem
    have hdiffer : i.testBit left ≠ i.testBit right := by
      generalize withBit (withBit i left true) right false = base at hone hzero hp
      have hne : left ≠ right := fun heq => by simp [heq, hzero] at hone
      rcases hp with rfl | rfl
      · simp [hone, hzero]
      · simp [flip_flip_testBit_left hne, flip_flip_testBit_right hne, hone, hzero]
    simp [hleft, hright, hcontrols, hdiffer]

/-! ### Blocks -/

theorem owner_blockAt {qubits : List Nat} (i p : Nat) (h : p ∈ blockAt qubits i) :
    clearBits p qubits = i := by
  unfold blockAt at h
  split at h
  · cases h
  · next hzero =>
    obtain ⟨k, -, rfl⟩ := List.mem_map.1 h
    have hclear : ∀ q ∈ qubits, i.testBit q = false := by simpa using hzero
    apply Nat.eq_of_testBit_eq
    intro q
    rw [testBit_clearBits, Nat.testBit_or]
    by_cases hq : q ∈ qubits
    · simp [hq, hclear q hq]
    · simp [hq, testBit_spread_of_not_mem k hq]

theorem sweep_blockAt [Zero A] (s : Statevector A) (qubits : List Nat) {f : List A → List A}
    {g : Nat → (Nat → A) → A} (hf : ∀ v : Nat → A,
      f ((List.range (count qubits.length)).map v) =
        (List.range (count qubits.length)).map fun row => g row v) :
    s.sweep (blockAt qubits) f = s.gather fun a i =>
      g (bitsAt i qubits) fun k => a (replaceBits i k qubits) := by
  refine ext_amplitude rfl fun i (hi : i < count s.width) => ?_
  rw [amplitude_gather _ _ hi]
  have hrow := bitsAt_lt i qubits
  have hplaces : blockAt qubits (clearBits i qubits) =
      (List.range (count qubits.length)).map fun k => replaceBits i k qubits := by
    have hclear : qubits.any (clearBits i qubits).testBit = false := by
      rw [List.any_eq_false]
      intro q hq
      simp [testBit_clearBits, hq]
    rw [blockAt, hclear, if_neg Bool.false_ne_true]
    rfl
  refine amplitude_sweep owner_blockAt hi (clearBits_lt_count hi qubits) (k := bitsAt i qubits) ?_ ?_ ?_
  · rw [hplaces, List.getElem?_map, List.getElem?_range hrow, Option.map_some, replaceBits_bitsAt]
  · intro j hj heq
    rw [hplaces, List.getElem?_map] at heq
    obtain ⟨k, hk, hreplaced⟩ := Option.map_eq_some_iff.1 heq
    obtain ⟨hlt, rfl⟩ := List.getElem?_eq_some_iff.1 hk
    rw [List.getElem_range] at hreplaced
    rw [List.length_range] at hlt
    refine Nat.not_lt.2 (le_bitsAt (fun q hq => ?_) hlt) hj
    rw [← hreplaced, replaceBits, Nat.testBit_or, hq, Bool.or_true]
  · rw [hplaces, List.map_map, hf, List.getElem?_map, List.getElem?_range hrow, Option.map_some]
    rfl

theorem rowSum_congr [Zero A] [Add A] [Mul A] {row : List A} {a b : Nat → A}
    (h : ∀ k < row.length, a k = b k) : rowSum row a = rowSum row b := by
  have hsum (a : Nat → A) : rowSum row a = (row.zipIdx.map fun p => p.1 * a p.2).foldl (· + ·) 0 :=
    List.foldl_map.symm
  have hterms : (row.zipIdx.map fun p => p.1 * a p.2) = row.zipIdx.map fun p => p.1 * b p.2 := by
    refine List.map_congr_left fun p hp => ?_
    rw [h p.2 (List.snd_lt_of_mem_zipIdx hp)]
  rw [hsum, hsum, hterms]

/-! ### Operations -/

theorem flipIf_eq [Zero A] (s : Statevector A) (controls : List Nat) (target : Nat) :
    s.flipIf controls target = s.gather fun a i =>
      if controls.all (withBit i target false).testBit then a (flip i target) else a i := by
  have hf (x y : A) : [x, y].reverse = [y, x] := rfl
  refine (sweep_pairAt s controls target hf).trans (congrArg s.gather ?_)
  funext a i
  cases hbit : i.testBit target with
  | false => rw [if_neg Bool.false_ne_true, withBit_of_ne (by simp [hbit] : _ ≠ true)]
  | true => rw [if_pos rfl, withBit_of_ne (by simp [hbit] : i.testBit target ≠ false)]

theorem swapIf_eq [Zero A] (s : Statevector A) (controls : List Nat) (left right : Nat) :
    s.swapIf controls left right = s.gather fun a i =>
      if (left < s.width && right < s.width && i.testBit left ≠ i.testBit right) &&
          controls.all (withBit (withBit i left true) right false).testBit then
        a (flip (flip i left) right)
      else a i :=
  sweep_exchangeAt s controls left right (f := List.reverse) (g := id) fun _ _ => rfl

theorem negateIf_eq [Zero A] [Neg A] (s : Statevector A) (qubits : List Nat) :
    s.negateIf qubits = s.gather fun a i => if qubits.all i.testBit then -a i else a i := by
  have howner (i p : Nat) (h : p ∈ if qubits.all i.testBit then [i] else []) : id p = i := by
    split at h
    · exact List.mem_singleton.1 h
    · cases h
  refine ext_amplitude rfl fun i (hi : i < count s.width) => ?_
  rw [amplitude_gather _ _ hi]
  split
  · next hone =>
    refine amplitude_sweep howner hi hi (k := 0) (by rw [if_pos hone]; rfl) (fun j hj => ?_) ?_
    · rw [if_pos hone]
      match j, hj with
      | j + 1, _ => simp
    · rw [if_pos hone]
      rfl
  · next hzero => exact amplitude_sweep_of_not_mem howner (by simp [hzero])

theorem applyIf_eq [Zero A] [Add A] [Mul A] (s : Statevector A) (controls : List Nat) (target : Nat)
    (g : Gate A) : s.applyIf controls target g = s.gather fun a i =>
      let low := withBit i target false
      let high := withBit i target true
      if controls.all low.testBit then
        if i.testBit target then g.m10 * a low + g.m11 * a high
        else g.m00 * a low + g.m01 * a high
      else a i := by
  have hf (x y : A) : ofPair (fun x y => [g.m00 * x + g.m01 * y, g.m10 * x + g.m11 * y]) [x, y] =
    [g.m00 * x + g.m01 * y, g.m10 * x + g.m11 * y] := rfl
  refine (sweep_pairAt s controls target hf).trans (congrArg s.gather ?_)
  funext a i
  cases i.testBit target <;> rfl

theorem applyMatrix_eq [Zero A] [Add A] [Mul A] (s : Statevector A) {qubits : List Nat}
    {m : List (List A)} (hm : Operation.hasSide qubits.length m = true) :
    s.applyMatrix qubits m = s.gather fun a i =>
      rowSum (m[bitsAt i qubits]?.getD []) fun k => a (replaceBits i k qubits) := by
  obtain ⟨hrows, hcolumns⟩ : m.length = count qubits.length ∧
      ∀ row ∈ m, row.length = count qubits.length := by
    simpa [Operation.hasSide] using hm
  refine sweep_blockAt s qubits (g := fun row => rowSum (m[row]?.getD [])) fun v => ?_
  have hread (k : Nat) (hk : k < count qubits.length) :
      (((List.range (count qubits.length)).map v).toArray[k]?.getD 0) = v k := by
    rw [List.getElem?_toArray, List.getElem?_map, List.getElem?_range hk, Option.map_some,
      Option.getD_some]
  refine List.ext_getElem (by simp [hrows]) fun row hrow _ => ?_
  rw [List.length_map] at hrow
  have hlength : m[row].length = count qubits.length := hcolumns _ (List.getElem_mem hrow)
  simp only [List.getElem_map, List.getElem_range, List.getElem?_eq_getElem hrow, Option.getD_some]
  exact rowSum_congr fun k hk => hread k (hlength ▸ hk)

variable [Scalar R] (s : Statevector (Complex R))

theorem hadamard_eq (target : Nat) : s.hadamard target = s.gather fun a i =>
    let zero := a (withBit i target false)
    let one := a (withBit i target true)
    (if i.testBit target then zero - one else zero + one).scale Scalar.rootHalf := by
  have hf (x y : Complex R) : ofPair (fun x y : Complex R =>
      [(x + y).scale Scalar.rootHalf, (x - y).scale Scalar.rootHalf]) [x, y] =
    [(x + y).scale Scalar.rootHalf, (x - y).scale Scalar.rootHalf] := rfl
  refine (sweep_pairAt s [] target hf).trans (congrArg s.gather ?_)
  funext a i
  cases i.testBit target <;> rfl

theorem iswap_eq (left right : Nat) : s.iswap left right = s.gather fun a i =>
    if left < s.width && right < s.width && i.testBit left ≠ i.testBit right then
      Complex.i * a (flip (flip i left) right)
    else a i := by
  have hf (x y : Complex R) : ofPair (fun x y : Complex R => [Complex.i * y, Complex.i * x]) [x, y] =
    [Complex.i * y, Complex.i * x] := rfl
  refine (sweep_exchangeAt s [] left right hf).trans (congrArg s.gather ?_)
  funext a i
  rw [List.all_nil, Bool.and_true]

end QuantumRelay.Statevector
