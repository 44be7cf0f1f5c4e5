import Mathlib

/-!
# Names in DNS datagrams

A name is a chain of labels and compression pointers that ends with an empty label.
The reader follows the chain, counts its jumps, and writes the labels in lower case
with dots between them.  A chain that ends never comes back to a place, so the count
of the jumps refuses only chains without an end.
-/

namespace SnowTG.Traffic.Dns

/-- `TG_DNS_LABEL_MAX`. -/
def labelMax : Nat := 63

/-- `TG_DNS_QNAME_CAP`. -/
def qnameCap : Nat := 256

def dot : UInt8 := 46

/-- `tg_dns_lower`. -/
def lower (character : UInt8) : UInt8 :=
  if 65 ≤ character ∧ character ≤ 90 then character - 65 + 97 else character

/-- The place that a compression pointer names. -/
def target (high low : UInt8) : Nat := (high &&& 0x3f).toNat <<< 8 ||| low.toNat

/-- A label of `size` bytes behind its length byte. -/
def labelAt (data : List UInt8) (cursor size : Nat) : List UInt8 :=
  (data.drop (cursor + 1)).take size

/-- The text with one more label. -/
def withLabel (output label : List UInt8) : List UInt8 :=
  (if output = [] then [] else output ++ [dot]) ++ label.map lower

/-- The variables of the loop of `tg_dns_expand_name`. -/
structure Expansion where
  cursor : Nat
  output : List UInt8 := []
  next : Nat
  jumps : Nat := 0
  jumped : Bool := false

/-- The loop of `tg_dns_expand_name`. -/
def expandFrom (data : List UInt8) (cap : Nat) (e : Expansion) : Option (List UInt8 × Nat) :=
  if inside : e.cursor < data.length then
    let size := data[e.cursor]
    if size = 0 then
      if cap ≤ e.output.length then none
      else some (e.output, if e.jumped then e.next else e.cursor + 1)
    else if size &&& 0xc0 = 0xc0 then
      if inside : e.cursor + 1 < data.length then
        let pointer := target size data[e.cursor + 1]
        if data.length ≤ pointer ∨ data.length < e.jumps + 1 then none
        else expandFrom data cap { e with
          cursor := pointer
          next := if e.jumped then e.next else e.cursor + 2
          jumps := e.jumps + 1
          jumped := true }
      else none
    else if size &&& 0xc0 ≠ 0 ∨ labelMax < size.toNat ∨
        data.length < e.cursor + 1 + size.toNat then none
    else if e.output ≠ [] ∧ cap ≤ e.output.length + 1 then none
    else if cap ≤ (withLabel e.output []).length + size.toNat then none
    else expandFrom data cap { e with
      cursor := e.cursor + 1 + size.toNat
      output := withLabel e.output (labelAt data e.cursor size.toNat) }
  else none
termination_by (data.length + 1 - e.jumps, data.length - e.cursor)
decreasing_by
  · exact Prod.Lex.left _ _ (by omega)
  · exact Prod.Lex.right _ (by omega)

/-- `tg_dns_expand_name`: the text and the place behind the name, if there is one. -/
def expandName (data : List UInt8) (offset cap : Nat) : Option (List UInt8 × Nat) :=
  if cap = 0 ∨ data.length ≤ offset then none
  else expandFrom data cap { cursor := offset, next := offset }

/-- The chain from a place on has this many steps and these labels; `next` is the place behind the
part of it that stands there. -/
inductive NameAt (data : List UInt8) : Nat → Nat → List (List UInt8) → Nat → Prop
  | root {cursor : Nat} (inside : cursor < data.length) :
      data[cursor] = 0 → NameAt data 0 cursor [] (cursor + 1)
  | label {cursor steps next : Nat} {labels : List (List UInt8)} (inside : cursor < data.length) :
      data[cursor] ≠ 0 → data[cursor] &&& 0xc0 = 0 →
      cursor + 1 + data[cursor].toNat ≤ data.length →
      NameAt data steps (cursor + 1 + data[cursor].toNat) labels next →
      NameAt data (steps + 1) cursor (labelAt data cursor data[cursor].toNat :: labels) next
  | pointer {cursor steps next : Nat} {labels : List (List UInt8)}
      (inside : cursor + 1 < data.length) :
      data[cursor] &&& 0xc0 = 0xc0 →
      NameAt data steps (target data[cursor] data[cursor + 1]) labels next →
      NameAt data (steps + 1) cursor labels (cursor + 2)

/-- A name as text. -/
def dotted (labels : List (List UInt8)) : List UInt8 :=
  [dot].intercalate (labels.map (·.map lower))

section

variable {data : List UInt8} {cap steps steps' cursor next next' : Nat}
  {labels labels' : List (List UInt8)} {output : List UInt8}

section

variable (h : NameAt data steps cursor labels next)
include h

theorem NameAt.lt : cursor < data.length := by
  cases h <;> omega

theorem NameAt.steps_unique (h' : NameAt data steps' cursor labels' next') : steps = steps' := by
  induction h generalizing steps' labels' next' with
  | root inside hzero => cases h' <;> simp_all
  | label inside hne hbits hin hrest ih =>
    cases h' with
    | label _ _ _ _ hrest' => rw [ih hrest']
    | _ => simp_all
  | pointer inside hbits hrest ih =>
    cases h' with
    | pointer _ _ hrest' => rw [ih hrest']
    | _ => simp_all

/-- The rest of a chain is a chain from some other place. -/
theorem NameAt.rest : ∀ left ≤ steps, ∃ place labels next, NameAt data left place labels next := by
  have hall := h
  induction h with
  | root => exact fun left hle => Nat.le_zero.mp hle ▸ ⟨_, _, _, hall⟩
  | label _ _ _ _ hrest ih | pointer _ _ hrest ih =>
    intro left hle
    rcases Nat.le_succ_iff.mp hle with hle | rfl
    · exact ih hrest left hle
    · exact ⟨_, _, _, hall⟩

/-- A chain passes each place of the datagram once at most. -/
theorem NameAt.steps_lt : steps < data.length := by
  choose! place labels next hplace using h.rest
  have hcard := Finset.card_le_card_of_injOn (s := Finset.range (steps + 1))
    (t := Finset.range data.length) place
    (fun left hleft => by
      simp only [Finset.coe_range, Set.mem_Iio] at hleft ⊢
      exact (hplace left (by omega)).lt)
    (fun left hleft left' hleft' heq => by
      simp only [Finset.coe_range, Set.mem_Iio] at hleft hleft'
      have hother := hplace left' (by omega)
      rw [← heq] at hother
      exact (hplace left (by omega)).steps_unique hother)
  simpa only [Finset.card_range, Nat.succ_le_iff] using hcard

end

theorem length_labelAt {size : Nat} (h : cursor + 1 + size ≤ data.length) :
    (labelAt data cursor size).length = size := by
  rw [labelAt, List.length_take, List.length_drop]
  omega

theorem length_withLabel (output label : List UInt8) :
    (withLabel output label).length = (withLabel output []).length + label.length := by
  simp [withLabel]

theorem intercalate_merge {α : Type} (sep a b : List α) (rest : List (List α)) :
    sep.intercalate (a :: b :: rest) = sep.intercalate ((a ++ sep ++ b) :: rest) := by
  cases rest <;> simp [List.intercalate]

theorem foldl_withLabel (hne : output ≠ []) (labels : List (List UInt8)) :
    labels.foldl withLabel output = [dot].intercalate (output :: labels.map (·.map lower)) := by
  induction labels generalizing output with
  | nil => simp [List.intercalate]
  | cons label labels ih =>
    rw [List.foldl_cons, ih (by simp [withLabel, hne]), List.map_cons, intercalate_merge]
    simp [withLabel, hne]

/-- What the loop returns is the text of the chain. -/
theorem expandFrom_sound {e : Expansion} {result : List UInt8 × Nat}
    (h : expandFrom data cap e = some result) :
    ∃ steps labels next, NameAt data steps e.cursor labels next ∧
      result = (labels.foldl withLabel e.output, if e.jumped then e.next else next) ∧
      result.1.length < cap := by
  fun_induction expandFrom data cap e with
  | case2 e inside size hzero hfits =>
    obtain rfl := Option.some.inj h
    exact ⟨0, [], _, .root inside hzero, rfl, Nat.lt_of_not_le hfits⟩
  | case4 e _ size hne hbits inside pointer hjump ih =>
    simp only [dite_eq_ite, if_true] at ih
    obtain ⟨steps, labels, next, hname, rfl, hlt⟩ := ih h
    exact ⟨_, _, _, .pointer inside hbits hname, rfl, hlt⟩
  | case9 e inside size hne hbits hlabel hdot hcap ih =>
    simp only [ne_eq, not_or, not_not, not_lt] at hlabel
    obtain ⟨steps, labels, next, hname, rfl, hlt⟩ := ih h
    exact ⟨_, _, _, .label inside hne hlabel.1 hlabel.2.2 hname, rfl, hlt⟩
  | _ => cases h

theorem size_le_of_bits : ∀ {size : UInt8}, size &&& 0xc0 = 0 → size.toNat ≤ labelMax := by
  have hbits : ∀ size : BitVec 8, size &&& 0xc0 = 0 → size.toNat ≤ labelMax := by decide
  intro size h
  exact hbits size.toBitVec (congrArg UInt8.toBitVec h)

theorem length_foldl_withLabel (output : List UInt8) (labels : List (List UInt8)) :
    output.length ≤ (labels.foldl withLabel output).length := by
  induction labels generalizing output with
  | nil => rfl
  | cons label labels ih =>
    refine le_trans ?_ (ih _)
    rw [withLabel]
    split_ifs with hnil
    · simp [hnil]
    · simp

/-- The loop comes to the end of a chain, if it has not jumped too often before. -/
theorem NameAt.expandFrom (h : NameAt data steps cursor labels next) {back jumps : Nat}
    {jumped : Bool} (hjumps : jumps + steps ≤ data.length)
    (hcap : (labels.foldl withLabel output).length < cap) :
    expandFrom data cap ⟨cursor, output, back, jumps, jumped⟩ =
      some (labels.foldl withLabel output, if jumped then back else next) := by
  induction h generalizing output back jumps jumped with
  | root inside hzero =>
    rw [Dns.expandFrom]
    simpa [inside, hzero] using hcap
  | pointer inside hbits hrest ih =>
    have hne : ∀ {size : UInt8}, size &&& 0xc0 = 0xc0 → size ≠ 0 := by
      rintro _ h rfl
      cases h
    have hin := hrest.lt
    rw [Dns.expandFrom, dif_pos (by dsimp only; omega)]
    simp only [hbits, inside, if_neg (hne hbits), if_true, dite_true]
    rw [if_neg (by omega), ih (by omega) hcap]
    simp
  | @label cursor steps next labels inside hne hbits hin hrest ih =>
    have hsize := size_le_of_bits hbits
    have hlonger := length_foldl_withLabel
      (withLabel output (labelAt data cursor data[cursor].toNat)) labels
    rw [List.foldl_cons] at hcap
    rw [length_withLabel, length_labelAt hin] at hlonger
    have hdot : output ≠ [] → (withLabel output []).length = output.length + 1 := by
      intro hne
      simp [withLabel, hne]
    rw [Dns.expandFrom, dif_pos inside]
    dsimp only
    rw [if_neg hne, if_neg (by simp [hbits]), if_neg (by simp [hbits]; omega),
      if_neg (fun h => by have := hdot h.1; omega), if_neg (by omega), ih (by omega) hcap,
      List.foldl_cons]

theorem NameAt.labels_ne (h : NameAt data steps cursor labels next) :
    ∀ label ∈ labels, label ≠ [] := by
  induction h with
  | root => simp
  | pointer _ _ _ ih => exact ih
  | label inside hne _ hin _ ih =>
    rw [List.forall_mem_cons, ← List.length_pos_iff, length_labelAt hin, Nat.pos_iff_ne_zero]
    exact ⟨fun hzero => hne (UInt8.toNat_inj.mp hzero), ih⟩

theorem dotted_eq (labels : List (List UInt8)) (hne : ∀ label ∈ labels, label ≠ []) :
    dotted labels = labels.foldl withLabel [] := by
  cases labels with
  | nil => rfl
  | cons label labels =>
    rw [List.foldl_cons, foldl_withLabel (by simp [withLabel, hne label])]
    simp [dotted, withLabel]

/-- The reader finds the names that are there and fit. -/
theorem expandName_iff (data : List UInt8) (offset cap : Nat) (text : List UInt8) (next : Nat) :
    expandName data offset cap = some (text, next) ↔
      ∃ steps labels, NameAt data steps offset labels next ∧ text = dotted labels ∧
        text.length < cap := by
  rw [expandName]
  constructor
  · intro h
    split_ifs at h with hargs
    obtain ⟨steps, labels, _, hname, heq, hfits⟩ := expandFrom_sound h
    cases heq
    exact ⟨steps, labels, hname, (dotted_eq labels hname.labels_ne).symm, hfits⟩
  · rintro ⟨steps, labels, hname, rfl, hfits⟩
    have hlt := hname.lt
    have hsteps := hname.steps_lt
    rw [dotted_eq labels hname.labels_ne] at hfits ⊢
    rw [if_neg (by omega), hname.expandFrom (by omega) hfits]
    rfl

end

/-! ### Responses -/

/-- `tg_dns_get_u16`. -/
def getU16 (data : List UInt8) (i : Nat) : Nat :=
  (data.getD i 0).toNat <<< 8 ||| (data.getD (i + 1) 0).toNat

/-- `tg_dns_names_equal`; a text ends with its last byte or before a NUL. -/
def namesEqual : List UInt8 → List UInt8 → Bool
  | [], right => right.headD 0 = 0
  | left :: _, [] => left = 0
  | left :: lefts, right :: rights =>
    if left ≠ 0 ∧ right ≠ 0 then lower left = lower right && namesEqual lefts rights
    else left = 0 && right = 0

/-- The fields of `struct tg_dns_config` and `struct tg_dns_state` that a response is checked
with. -/
structure Query where
  qname : List UInt8
  qtype : Nat
  transactionId : Nat

/-- The loop of `tg_dns_response_valid` over the records. -/
def recordsEnd (data : List UInt8) : Nat → Nat → Option Nat
  | 0, offset => some offset
  | count + 1, offset =>
    match expandName data offset qnameCap with
    | none => none
    | some (_, next) =>
      if data.length < next + 10 then none
      else if data.length - (next + 10) < getU16 data (next + 8) then none
      else recordsEnd data count (next + 10 + getU16 data (next + 8))

/-- `tg_dns_response_valid`. -/
def responseValid (query : Query) (data : List UInt8) : Bool :=
  if data.length < 12 ∨ (query.qtype ≠ 1 ∧ query.qtype ≠ 28) then false
  else if getU16 data 0 ≠ query.transactionId then false
  else if getU16 data 2 &&& 0x8000 = 0 ∨ getU16 data 2 &&& 0x7800 ≠ 0 ∨
      getU16 data 2 &&& 0x0200 ≠ 0 then false
  else if getU16 data 4 ≠ 1 then false
  else
    match expandName data 12 qnameCap with
    | none => false
    | some (name, offset) =>
      if ¬ namesEqual name query.qname ∨ data.length < offset + 4 ∨
          getU16 data offset ≠ query.qtype ∨ getU16 data (offset + 2) ≠ 1 then false
      else recordsEnd data (getU16 data 6 + getU16 data 8 + getU16 data 10) (offset + 4) =
        some data.length

/-- So many records stand one behind the other between two places. -/
inductive Records (data : List UInt8) : Nat → Nat → Nat → Prop
  | nil (offset : Nat) : Records data 0 offset offset
  | cons {count offset steps next stop : Nat} {labels : List (List UInt8)} :
      NameAt data steps offset labels next →
      next + 10 + getU16 data (next + 8) ≤ data.length →
      Records data count (next + 10 + getU16 data (next + 8)) stop →
      Records data (count + 1) offset stop

theorem recordsEnd_sound {data : List UInt8} {count offset stop : Nat}
    (h : recordsEnd data count offset = some stop) : Records data count offset stop := by
  fun_induction recordsEnd data count offset with
  | case1 offset =>
    obtain rfl := Option.some.inj h
    exact .nil _
  | case5 count offset name next hname hhead hdata ih =>
    obtain ⟨steps, labels, hname, -⟩ := (expandName_iff ..).mp hname
    exact .cons hname (by omega) (ih h)
  | _ => cases h

/-- The names that are found are exactly those that stand in the datagram and fit, whatever chain
of pointers there is.  A response that is accepted is a header, a question and its records, up to
the last byte. -/
theorem name_expansion_exact (data : List UInt8) :
    (∀ offset cap text next, expandName data offset cap = some (text, next) ↔
      ∃ steps labels, NameAt data steps offset labels next ∧ text = dotted labels ∧
        text.length + 1 ≤ cap) ∧
    ∀ query, responseValid query data → ∃ steps labels next,
      NameAt data steps 12 labels next ∧ next + 4 ≤ data.length ∧
      Records data (getU16 data 6 + getU16 data 8 + getU16 data 10) (next + 4) data.length := by
  refine ⟨expandName_iff data, fun query h => ?_⟩
  rw [responseValid] at h
  split_ifs at h
  split at h
  · cases h
  · rename_i name offset hname
    split_ifs at h with hquestion
    obtain ⟨steps, labels, hname, -⟩ := (expandName_iff ..).mp hname
    rw [not_or, not_or, not_lt] at hquestion
    exact ⟨steps, labels, offset, hname, hquestion.2.1, recordsEnd_sound (of_decide_eq_true h)⟩

/-- A response with one address; the name of its record points back to the question. -/
def addressResponse : List UInt8 :=
  [0, 7, 0x81, 0x80, 0, 1, 0, 1, 0, 0, 0, 0, 1, 97, 0, 0, 1, 0, 1,
    0xc0, 12, 0, 1, 0, 1, 0, 0, 0, 60, 0, 4, 10, 0, 0, 1]

example : responseValid ⟨[97], 1, 7⟩ addressResponse := by
  have hroot : NameAt addressResponse 0 14 [] 15 := .root (by decide) rfl
  have hlabel : NameAt addressResponse 1 12 [[97]] 15 :=
    .label (by decide) (by decide) (by decide) (by decide) hroot
  have hpointer : NameAt addressResponse 2 19 [[97]] 21 := by
    refine .pointer (by decide) (by decide) (?_ : NameAt _ _ _ _ 15)
    rwa [show target addressResponse[19] addressResponse[19 + 1] = 12 by decide]
  have hquestion := (expandName_iff addressResponse 12 qnameCap [97] 15).mpr
    ⟨_, _, hlabel, by decide, by decide⟩
  have hrecord := (expandName_iff addressResponse 19 qnameCap [97] 21).mpr
    ⟨_, _, hpointer, by decide, by decide⟩
  rw [responseValid, hquestion]
  simp only [show getU16 addressResponse 6 + getU16 addressResponse 8 +
    getU16 addressResponse 10 = 1 by decide, recordsEnd, hrecord]
  decide

end SnowTG.Traffic.Dns
