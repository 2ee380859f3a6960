import BeatNotation.Settings

/-! The table of the sigils seen. As long as the scan has found nothing, the table has for every
character the one group before that it opens. So what the scan finds can be said without the
table: a sigil is shared when an earlier group has it. -/

namespace BeatNotation

open Alphabet

namespace SigilGroup

/-- The groups that come before a group. -/
def earlier (g : SigilGroup) : List SigilGroup := all.takeWhile (· ≠ g)

/-- The groups in front of a group are the earlier ones. -/
theorem earlier_eq {g : SigilGroup} {before later : List SigilGroup}
    (h : all = before ++ g :: later) : g.earlier = before := by
  have hnodup : (before ++ g :: later).Nodup := h ▸ by decide
  have hbefore : ∀ k ∈ before, decide (k ≠ g) = true := by
    intro k hk
    have hne := (List.nodup_append.1 hnodup).2.2 k hk g List.mem_cons_self
    simpa using hne
  rw [earlier, h, List.takeWhile_append_of_pos hbefore, List.takeWhile_cons_of_neg (by simp),
    List.append_nil]

theorem not_mem_earlier_self (g : SigilGroup) : g ∉ g.earlier := fun h => by
  simpa using List.all_eq_true.1 List.all_takeWhile g h

end SigilGroup

namespace Configuration

/-- What is wrong with one sigil of a group. -/
def sigilViolation? (x : Configuration) (g : SigilGroup) (c : Char) : Option Violation :=
  if c ∈ reserved then some (.reservedSigil g c)
  else (g.earlier.find? (c ∈ x.sigils ·)).map (.sharedSigil c · g)

def groupViolation? (x : Configuration) (g : SigilGroup) : Option Violation :=
  if (x.sigils g).isEmpty then some (.noSigil g) else (x.sigils g).findSome? (x.sigilViolation? g)

variable {x : Configuration} {g : SigilGroup} {seen : SigilTable}

/-! ### One group -/

/-- The table once the sigils of a group are entered. -/
def entered (g : SigilGroup) (cs : List Char) (seen : SigilTable) : SigilTable :=
  (cs.map (·, g)).reverse ++ seen

theorem entered_cons (g : SigilGroup) (c : Char) (cs : List Char) (seen : SigilTable) :
    entered g (c :: cs) seen = entered g cs ((c, g) :: seen) := by
  rw [entered, List.map_cons, List.reverse_cons, List.append_assoc, List.singleton_append, entered]

theorem lookup_entered (g : SigilGroup) (cs : List Char) (seen : SigilTable) (a : Char) :
    (entered g cs seen).lookup a = if a ∈ cs then some g else seen.lookup a := by
  induction cs generalizing seen with
  | nil => rfl
  | cons c cs ih =>
    rw [entered_cons, ih]
    by_cases ha : a = c
    · simp [ha]
    · have hne : (a == c) = false := by simpa using ha
      simp [ha, List.lookup_cons, hne]

/-- When the table has the owners of the sigils in earlier groups, the scan of a group finds its
violation, or else enters its sigils. -/
theorem enterSigils_eq (hseen : ∀ a, (seen.lookup a).filter (· ≠ g) =
    g.earlier.find? (a ∈ x.sigils ·)) (cs : List Char) :
    enterSigils g cs seen = match cs.findSome? (x.sigilViolation? g) with
      | some v => .error v
      | none => .ok (entered g cs seen) := by
  induction cs generalizing seen with
  | nil => rfl
  | cons c cs ih =>
    rw [enterSigils, List.findSome?_cons, sigilViolation?, hseen c]
    split
    · rfl
    · cases howner : g.earlier.find? (c ∈ x.sigils ·) with
      | some owner => rfl
      | none =>
        have hentry : ∀ a, (((c, g) :: seen).lookup a).filter (· ≠ g) =
            g.earlier.find? (a ∈ x.sigils ·) := by
          intro a
          by_cases ha : a = c
          · rw [ha, howner]
            simp
          · have hne : (a == c) = false := by simpa using ha
            rw [List.lookup_cons, hne]
            exact hseen a
        rw [entered_cons]
        exact ih hentry

/-! ### Group after group -/

/-- The table has for every character the first of the groups that it opens. -/
def Tabulates (x : Configuration) (groups : List SigilGroup) (seen : SigilTable) : Prop :=
  ∀ c, seen.lookup c = groups.find? (c ∈ x.sigils ·)

theorem Tabulates.filter (h : x.Tabulates g.earlier seen) (c : Char) :
    (seen.lookup c).filter (· ≠ g) = g.earlier.find? (c ∈ x.sigils ·) := by
  rw [h c]
  cases howner : g.earlier.find? (c ∈ x.sigils ·) with
  | none => rfl
  | some owner =>
    have hmem := List.mem_of_find?_eq_some howner
    have hne : owner ≠ g := fun e => g.not_mem_earlier_self (e ▸ hmem)
    simp [hne]

theorem Tabulates.entered (h : x.Tabulates g.earlier seen)
    (hg : (x.sigils g).findSome? (x.sigilViolation? g) = none) :
    x.Tabulates (g.earlier ++ [g]) (entered g (x.sigils g) seen) := by
  intro c
  rw [lookup_entered, List.find?_append, h c]
  split
  · next hc =>
    have hviolation := List.findSome?_eq_none_iff.1 hg c hc
    have howner : g.earlier.find? (c ∈ x.sigils ·) = none := by
      unfold sigilViolation? at hviolation
      split at hviolation
      · cases hviolation
      · exact Option.map_eq_none_iff.1 hviolation
    simp [howner, hc]
  · next hc => simp [hc]

/-- The scan of the groups finds the first violation, or else tabulates all sigils. -/
theorem enterGroups_eq {before gs : List SigilGroup} (hall : SigilGroup.all = before ++ gs)
    (h : x.Tabulates before seen) :
    match gs.findSome? x.groupViolation? with
    | some v => x.enterGroups gs seen = .error v
    | none => ∃ last, x.enterGroups gs seen = .ok last ∧ x.Tabulates SigilGroup.all last := by
  induction gs generalizing before seen with
  | nil => exact ⟨seen, rfl, by rwa [hall, List.append_nil]⟩
  | cons g gs ih =>
    obtain rfl := SigilGroup.earlier_eq hall
    rw [List.findSome?_cons, groupViolation?, enterGroups]
    by_cases hempty : (x.sigils g).isEmpty
    · rw [if_pos hempty, if_pos hempty]
    · rw [if_neg hempty, if_neg hempty, enterSigils_eq h.filter]
      cases hg : (x.sigils g).findSome? (x.sigilViolation? g) with
      | some v => rfl
      | none => exact ih (by rw [hall, List.append_assoc]; rfl) (h.entered hg)

/-- The first violation is that of the first group that has one, or else of a keyword. -/
theorem violation?_eq (x : Configuration) :
    x.violation? = (SigilGroup.all.findSome? x.groupViolation?).or x.keywordViolation? := by
  have hnil : x.Tabulates [] [] := fun _ => rfl
  have h := enterGroups_eq (List.nil_append SigilGroup.all).symm hnil
  unfold violation?
  cases hv : SigilGroup.all.findSome? x.groupViolation? with
  | some v =>
    rw [hv] at h
    rw [h]
    rfl
  | none =>
    rw [hv] at h
    obtain ⟨last, hlast, -⟩ := h
    rw [hlast]
    rfl

end Configuration

end BeatNotation
