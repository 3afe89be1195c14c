import SingBox.Library.Uri

namespace SingBox.Library.Uri

-- What has no slash in it is read up to the slash behind it.
theorem takeWhile_front {front back : List Char} (hfront : '/' ∉ front)
    (hback : back = [] ∨ back.head? = some '/') : (front ++ back).takeWhile (· ≠ '/') = front := by
  have hclean : ∀ char ∈ front, decide (char ≠ '/') = true := fun char hmem =>
    decide_eq_true fun heq => hfront (heq ▸ hmem)
  rw [List.takeWhile_append_of_pos hclean]
  cases back with
  | nil => exact List.append_nil front
  | cons char back =>
      obtain rfl : char = '/' := hback.elim (fun h => by cases h) fun h => Option.some.inj h
      exact List.append_nil front

theorem dropWhile_front {front back : List Char} (hfront : '/' ∉ front)
    (hback : back = [] ∨ back.head? = some '/') : (front ++ back).dropWhile (· ≠ '/') = back := by
  have hsplit := List.takeWhile_append_dropWhile (p := (· ≠ '/')) (l := front ++ back)
  rw [takeWhile_front hfront hback] at hsplit
  exact List.append_cancel_left hsplit

-- From the end, up to a slash.
theorem rdropWhile_slash (front : List Char) {back : List Char} (h : '/' ∉ back) :
    (front ++ '/' :: back).rdropWhile (· ≠ '/') = front ++ ['/'] := by
  rw [List.rdropWhile, List.reverse_append, List.reverse_cons, List.append_assoc, List.singleton_append,
    dropWhile_front (mt List.mem_reverse.mp h) (.inr rfl), List.reverse_cons, List.reverse_reverse]

theorem front_unique {first second back other : List Char} (hfirst : '/' ∉ first)
    (hsecond : '/' ∉ second) (hback : back = [] ∨ back.head? = some '/')
    (hother : other = [] ∨ other.head? = some '/') (h : first ++ back = second ++ other) :
    first = second ∧ back = other := by
  have hsame : first = second := by
    rw [← takeWhile_front hfirst hback, h, takeWhile_front hsecond hother]
  subst hsame
  exact ⟨rfl, List.append_cancel_left h⟩

theorem mem_marked {mark char : Char} {part : Option (List Char)} (h : char ∈ marked mark part) :
    char = mark ∨ ∃ text ∈ part, char ∈ text := by
  cases part with
  | none => cases h
  | some text =>
      cases List.mem_cons.mp h with
      | inl hmark => exact .inl hmark
      | inr hchar => exact .inr ⟨text, rfl, hchar⟩

theorem rooted_cons (segment : Segment) (segments : List Segment) :
    rooted (segment :: segments) = '/' :: (segment ++ rooted segments) := rfl

theorem rooted_append (front back : List Segment) :
    rooted (front ++ back) = rooted front ++ rooted back := List.flatMap_append

theorem rooted_head (segments : List Segment) :
    rooted segments = [] ∨ (rooted segments).head? = some '/' := by
  cases segments with
  | nil => exact .inl rfl
  | cons segment segments => exact .inr rfl

theorem rooted_eq_nil {segments : List Segment} : rooted segments = [] ↔ segments = [] := by
  cases segments with
  | nil => exact ⟨fun _ => rfl, fun _ => rfl⟩
  | cons segment segments => exact iff_of_false (List.cons_ne_nil _ _) (List.cons_ne_nil _ _)

theorem rooted_inj {left right : List Segment} (hleft : ∀ segment ∈ left, '/' ∉ segment)
    (hright : ∀ segment ∈ right, '/' ∉ segment) (h : rooted left = rooted right) : left = right := by
  induction left generalizing right with
  | nil => exact (rooted_eq_nil.mp h.symm).symm
  | cons segment left ih =>
      cases right with
      | nil => cases h
      | cons other right =>
          obtain ⟨hsegment, hbelow⟩ := List.forall_mem_cons.mp hleft
          obtain ⟨hother, hafter⟩ := List.forall_mem_cons.mp hright
          obtain ⟨hsame, hrest⟩ := front_unique hsegment hother (rooted_head left) (rooted_head right)
            (List.cons.inj h).2
          rw [hsame, ih hbelow hafter hrest]

-- The removal of dot segments, segment by segment.

def isDots (segment : Segment) : Bool := segment = ['.'] || segment = ['.', '.']

def push (stack : List Segment) (segment : Segment) : List Segment :=
  if segment = ['.'] then stack else if segment = ['.', '.'] then stack.tail else segment :: stack

-- What ends in a dot segment ends in a slash without it.
def closing (segments : List Segment) : List Segment :=
  if segments.getLast?.any isDots then [[]] else []

def cleared (segments : List Segment) : List Segment :=
  (segments.foldl push []).reverse ++ closing segments

section Step

variable {output : List Char} {segment : Segment} {rest : List Segment}

theorem prefix_rooted {front : List Char} (hfront : '/' ∉ front) (hsegment : '/' ∉ segment) :
    '/' :: (front ++ ['/']) <+: rooted (segment :: rest) ↔ segment = front ∧ rest ≠ [] := by
  constructor
  · rintro ⟨back, hback⟩
    have htail : front ++ '/' :: back = segment ++ rooted rest := by
      rw [List.cons_append, List.append_assoc] at hback
      exact (List.cons.inj hback).2
    obtain ⟨rfl, hrest⟩ := front_unique hfront hsegment (.inr rfl) (rooted_head rest) htail
    refine ⟨rfl, ?_⟩
    rintro rfl
    cases hrest
  · rintro ⟨rfl, hrest⟩
    obtain ⟨other, others, rfl⟩ := List.exists_cons_of_ne_nil hrest
    refine ⟨other ++ rooted others, ?_⟩
    rw [rooted_cons, rooted_cons, List.cons_append, List.append_assoc]
    rfl

theorem rooted_eq {front : List Char} (hfront : '/' ∉ front) (hsegment : '/' ∉ segment) :
    rooted (segment :: rest) = '/' :: front ↔ segment = front ∧ rest = [] := by
  constructor
  · intro h
    have htail : segment ++ rooted rest = front ++ [] := by
      rw [List.append_nil]
      exact (List.cons.inj h).2
    obtain ⟨rfl, hrest⟩ := front_unique hsegment hfront (rooted_head rest) (.inl rfl) htail
    exact ⟨rfl, rooted_eq_nil.mp hrest⟩
  · rintro ⟨rfl, rfl⟩
    rw [rooted_cons]
    exact congrArg _ (List.append_nil segment)

-- A step reads the first segment, whose kind decides.
theorem dotStep_rooted (hsegment : '/' ∉ segment) :
    dotStep output (rooted (segment :: rest)) =
      if segment = ['.'] then (output, if rest = [] then ['/'] else rooted rest)
      else if segment = ['.', '.'] then
        (removeLast output, if rest = [] then ['/'] else rooted rest)
      else (output ++ '/' :: segment, rooted rest) := by
  have hdot : '/' ∉ ['.'] := by decide
  have hdots : '/' ∉ ['.', '.'] := by decide
  have hback : ¬"../".toList <+: rooted (segment :: rest) := fun ⟨_, h⟩ =>
    absurd (List.cons.inj h).1 (by decide)
  have hhere : ¬"./".toList <+: rooted (segment :: rest) := fun ⟨_, h⟩ =>
    absurd (List.cons.inj h).1 (by decide)
  have hrelative : ¬(rooted (segment :: rest) = ".".toList ∨ rooted (segment :: rest) = "..".toList) := by
    rintro (h | h) <;> exact absurd (List.cons.inj h).1 (by decide)
  have hone : "/./".toList <+: rooted (segment :: rest) ↔ segment = ['.'] ∧ rest ≠ [] :=
    prefix_rooted hdot hsegment
  have htwo : "/../".toList <+: rooted (segment :: rest) ↔ segment = ['.', '.'] ∧ rest ≠ [] :=
    prefix_rooted hdots hsegment
  have honeEnd : rooted (segment :: rest) = "/.".toList ↔ segment = ['.'] ∧ rest = [] :=
    rooted_eq hdot hsegment
  have htwoEnd : rooted (segment :: rest) = "/..".toList ↔ segment = ['.', '.'] ∧ rest = [] :=
    rooted_eq hdots hsegment
  rw [dotStep, if_neg hback, if_neg hhere]
  by_cases hsame : segment = ['.']
  · subst hsame
    rw [if_pos rfl]
    by_cases hrest : rest = []
    · rw [if_neg fun h => (hone.mp h).2 hrest, if_pos (honeEnd.mpr ⟨rfl, hrest⟩), if_pos hrest]
    · rw [if_pos (hone.mpr ⟨rfl, hrest⟩), if_neg hrest]
      rfl
  · rw [if_neg fun h => hsame (hone.mp h).1, if_neg fun h => hsame (honeEnd.mp h).1, if_neg hsame]
    by_cases hparent : segment = ['.', '.']
    · subst hparent
      rw [if_pos rfl]
      by_cases hrest : rest = []
      · rw [if_neg fun h => (htwo.mp h).2 hrest, if_pos (htwoEnd.mpr ⟨rfl, hrest⟩), if_pos hrest]
      · rw [if_pos (htwo.mpr ⟨rfl, hrest⟩), if_neg hrest]
        rfl
    · rw [if_neg fun h => hparent (htwo.mp h).1, if_neg fun h => hparent (htwoEnd.mp h).1,
        if_neg hrelative, if_neg hparent]
      have hdrop : (rooted (segment :: rest)).drop 1 = segment ++ rooted rest := rfl
      rw [hdrop, takeWhile_front hsegment (rooted_head rest), dropWhile_front hsegment (rooted_head rest)]
      rfl

theorem removeLast_rooted {stack : List Segment} (h : ∀ segment ∈ stack, '/' ∉ segment) :
    removeLast (rooted stack.reverse) = rooted stack.tail.reverse := by
  cases stack with
  | nil => rfl
  | cons segment stack =>
      have hlast : rooted [segment] = '/' :: segment := congrArg _ (List.append_nil segment)
      rw [List.reverse_cons, rooted_append, hlast, removeLast,
        rdropWhile_slash _ (h segment List.mem_cons_self), List.dropLast_concat]
      rfl

theorem closing_cons (segment : Segment) {rest : List Segment} (h : rest ≠ []) :
    closing (segment :: rest) = closing rest := by
  obtain ⟨other, others, rfl⟩ := List.exists_cons_of_ne_nil h
  rw [closing, closing, List.getLast?_cons_cons]

theorem closing_concat (init : List Segment) (last : Segment) :
    closing (init ++ [last]) = closing [last] := by
  rw [closing, closing, List.getLast?_concat, List.getLast?_singleton]

theorem removeDotsFor_slash {fuel : Nat} (h : 0 < fuel) (output : List Char) :
    removeDotsFor fuel output ['/'] = output ++ ['/'] := by
  obtain ⟨fuel, rfl⟩ : ∃ n, fuel = n + 1 := ⟨fuel - 1, by omega⟩
  have hmove : dotStep output ['/'] = (output ++ ['/'], []) := by
    have hstep : dotStep output (rooted [[]]) = (output ++ ['/'], []) :=
      dotStep_rooted List.not_mem_nil
    exact hstep
  rw [removeDotsFor, hmove]
  · cases fuel <;> rfl
  · exact List.cons_ne_nil _ _

-- The text of a path is read to its end, with fuel for its length.
theorem removeDotsFor_rooted {stack segments : List Segment} {fuel : Nat}
    (hstack : ∀ segment ∈ stack, '/' ∉ segment) (h : ∀ segment ∈ segments, '/' ∉ segment)
    (hfuel : (rooted segments).length ≤ fuel) :
    removeDotsFor fuel (rooted stack.reverse) (rooted segments) =
      rooted ((segments.foldl push stack).reverse ++ closing segments) := by
  induction segments generalizing stack fuel with
  | nil =>
      have hnil : removeDotsFor fuel (rooted stack.reverse) [] = rooted stack.reverse := by
        cases fuel <;> rfl
      exact hnil.trans (congrArg rooted (List.append_nil _).symm)
  | cons segment rest ih =>
      obtain ⟨hsegment, hrest⟩ := List.forall_mem_cons.mp h
      rw [rooted_cons, List.length_cons, List.length_append] at hfuel
      obtain ⟨fuel, rfl⟩ : ∃ n, fuel = n + 1 := ⟨fuel - 1, by omega⟩
      have hstep : removeDotsFor (fuel + 1) (rooted stack.reverse) (rooted (segment :: rest)) =
          removeDotsFor fuel (dotStep (rooted stack.reverse) (rooted (segment :: rest))).1
            (dotStep (rooted stack.reverse) (rooted (segment :: rest))).2 := rfl
      -- a dot segment leaves a slash behind it, which is that of the next segment if there is one
      have hclose {output : List Segment} (houtput : ∀ segment ∈ output, '/' ∉ segment)
          (hpush : push stack segment = output) (hdots : isDots segment = true)
          (hlong : 0 < segment.length) :
          removeDotsFor fuel (rooted output.reverse) (if rest = [] then ['/'] else rooted rest) =
            rooted (((segment :: rest).foldl push stack).reverse ++ closing (segment :: rest)) := by
        rw [List.foldl_cons, hpush]
        by_cases hlast : rest = []
        · rw [if_pos hlast, removeDotsFor_slash (by omega), hlast, closing, List.getLast?_singleton,
            Option.any_some, if_pos hdots, rooted_append]
          rfl
        · rw [if_neg hlast, ih houtput hrest (by omega), closing_cons segment hlast]
      rw [hstep, dotStep_rooted hsegment]
      by_cases hdot : segment = ['.']
      · rw [if_pos hdot]
        exact hclose hstack (if_pos hdot) (by rw [hdot]; rfl) (by rw [hdot]; decide)
      · by_cases hparent : segment = ['.', '.']
        · rw [if_neg hdot, if_pos hparent]
          show removeDotsFor fuel (removeLast (rooted stack.reverse)) _ = _
          rw [removeLast_rooted hstack]
          exact hclose (fun other hmem => hstack other (List.mem_of_mem_tail hmem))
            ((if_neg hdot).trans (if_pos hparent)) (by rw [hparent]; rfl) (by rw [hparent]; decide)
        · rw [if_neg hdot, if_neg hparent]
          have hpush : push stack segment = segment :: stack := (if_neg hdot).trans (if_neg hparent)
          have houtput : rooted stack.reverse ++ '/' :: segment = rooted (segment :: stack).reverse := by
            rw [List.reverse_cons, rooted_append]
            exact congrArg (rooted stack.reverse ++ '/' :: ·) (List.append_nil segment).symm
          have hplain : isDots segment = false := by simp [isDots, hdot, hparent]
          have hsame : closing (segment :: rest) = closing rest := by
            cases rest with
            | nil => simp [closing, hplain]
            | cons other others => exact closing_cons segment (List.cons_ne_nil _ _)
          show removeDotsFor fuel (rooted stack.reverse ++ '/' :: segment) (rooted rest) = _
          rw [houtput, ih (List.forall_mem_cons.mpr ⟨hsegment, hstack⟩) hrest (by omega),
            List.foldl_cons, hpush, hsame]

end Step

theorem removeDotSegments_rooted {segments : List Segment} (h : ∀ segment ∈ segments, '/' ∉ segment) :
    removeDotSegments (rooted segments) = rooted (cleared segments) :=
  removeDotsFor_rooted (List.forall_mem_nil _) h (Nat.le_refl _)

-- What the removal leaves.

theorem foldl_push_plain {segments : List Segment} (stack : List Segment)
    (h : ∀ segment ∈ segments, isDots segment = false) :
    segments.foldl push stack = segments.reverse ++ stack := by
  induction segments generalizing stack with
  | nil => rfl
  | cons segment rest ih =>
      obtain ⟨hsegment, hrest⟩ := List.forall_mem_cons.mp h
      obtain ⟨hdot, hparent⟩ : segment ≠ ['.'] ∧ segment ≠ ['.', '.'] := by
        simpa [isDots] using hsegment
      have hpush : push stack segment = segment :: stack := (if_neg hdot).trans (if_neg hparent)
      rw [List.foldl_cons, hpush, ih _ hrest, List.reverse_cons, List.append_assoc]
      rfl

theorem push_plain {stack : List Segment} (segment : Segment)
    (h : ∀ other ∈ stack, isDots other = false) : ∀ other ∈ push stack segment, isDots other = false := by
  unfold push
  split
  · exact h
  · split
    · exact fun other hmem => h other (List.mem_of_mem_tail hmem)
    · rename_i hdot hparent
      exact List.forall_mem_cons.mpr ⟨by simp [isDots, hdot, hparent], h⟩

theorem foldl_push_dotless (segments : List Segment) {stack : List Segment}
    (h : ∀ segment ∈ stack, isDots segment = false) :
    ∀ segment ∈ segments.foldl push stack, isDots segment = false := by
  induction segments generalizing stack with
  | nil => exact h
  | cons segment rest ih => exact ih (push_plain segment h)

theorem mem_foldl_push {segments stack : List Segment} {segment : Segment}
    (h : segment ∈ segments.foldl push stack) : segment ∈ stack ∨ segment ∈ segments := by
  induction segments generalizing stack with
  | nil => exact .inl h
  | cons first rest ih =>
      cases ih h with
      | inr hrest => exact .inr (List.mem_cons_of_mem _ hrest)
      | inl hpush =>
          unfold push at hpush
          split at hpush
          · exact .inl hpush
          · split at hpush
            · exact .inl (List.mem_of_mem_tail hpush)
            · cases List.mem_cons.mp hpush with
              | inl hfirst => exact .inr (hfirst ▸ List.mem_cons_self)
              | inr hstack => exact .inl hstack

theorem mem_cleared {segments : List Segment} {segment : Segment} (h : segment ∈ cleared segments) :
    segment = [] ∨ segment ∈ segments := by
  cases List.mem_append.mp h with
  | inl hkept => exact .inr ((mem_foldl_push (List.mem_reverse.mp hkept)).resolve_left List.not_mem_nil)
  | inr hclosing =>
      unfold closing at hclosing
      split at hclosing
      · exact .inl (List.mem_singleton.mp hclosing)
      · cases hclosing

theorem cleared_slashless {segments : List Segment} (h : ∀ segment ∈ segments, '/' ∉ segment) :
    ∀ segment ∈ cleared segments, '/' ∉ segment := by
  intro segment hmem
  obtain rfl | hsegment := mem_cleared hmem
  · exact List.not_mem_nil
  · exact h segment hsegment

theorem cleared_dotless (segments : List Segment) :
    ∀ segment ∈ cleared segments, isDots segment = false := by
  intro segment hmem
  cases List.mem_append.mp hmem with
  | inl hkept =>
      exact foldl_push_dotless segments (List.forall_mem_nil _) segment (List.mem_reverse.mp hkept)
  | inr hclosing =>
      unfold closing at hclosing
      split at hclosing
      · obtain rfl := List.mem_singleton.mp hclosing
        rfl
      · cases hclosing

-- Nothing goes where there are no dot segments, and only there.
theorem cleared_eq_self {segments : List Segment} :
    cleared segments = segments ↔ ∀ segment ∈ segments, isDots segment = false := by
  constructor
  · intro h
    rw [← h]
    exact cleared_dotless segments
  · intro h
    have hclosing : closing segments = [] := by
      cases hlast : segments.getLast? with
      | none => rw [closing, hlast]; rfl
      | some last =>
          have hplain := h last (List.mem_of_getLast? hlast)
          rw [closing, hlast, Option.any_some, hplain]
          rfl
    rw [cleared, foldl_push_plain [] h, hclosing, List.append_nil, List.append_nil, List.reverse_reverse]

theorem length_rooted_push (stack : List Segment) (segment : Segment) :
    (rooted (push stack segment)).length + (rooted (closing [segment])).length ≤
      (rooted stack).length + (rooted [segment]).length := by
  have hsegment : (rooted [segment]).length = segment.length + 1 := by
    rw [rooted_cons, List.length_cons, List.length_append]
    rfl
  by_cases hdot : segment = ['.']
  · subst hdot
    exact Nat.add_le_add_left (by decide) _
  by_cases hparent : segment = ['.', '.']
  · subst hparent
    have htail : (rooted stack.tail).length ≤ (rooted stack).length := by
      cases stack with
      | nil => exact Nat.le_refl _
      | cons other stack =>
          rw [rooted_cons, List.length_cons, List.length_append, List.tail_cons]
          omega
    exact Nat.add_le_add htail (by decide)
  · have hpush : push stack segment = segment :: stack := (if_neg hdot).trans (if_neg hparent)
    have hclosing : closing [segment] = [] := if_neg (by simp [isDots, hdot, hparent])
    rw [hpush, hclosing, rooted_cons, List.length_cons, List.length_append, hsegment]
    have hnil : (rooted []).length = 0 := rfl
    omega

theorem length_rooted_foldl (segments stack : List Segment) :
    (rooted (segments.foldl push stack)).length ≤ (rooted stack).length + (rooted segments).length := by
  induction segments generalizing stack with
  | nil => exact Nat.le_add_right _ _
  | cons segment rest ih =>
      have hpush := length_rooted_push stack segment
      have hrest := ih (push stack segment)
      have hcons : (rooted (segment :: rest)).length = (rooted [segment]).length + (rooted rest).length := by
        rw [← List.length_append, ← rooted_append, List.singleton_append]
      rw [List.foldl_cons]
      omega

-- The path does not get longer.
theorem length_rooted_cleared (segments : List Segment) :
    (rooted (cleared segments)).length ≤ (rooted segments).length := by
  have hreverse (stack : List Segment) : (rooted stack.reverse).length = (rooted stack).length :=
    ((List.reverse_perm stack).flatMap_right _).length_eq
  induction segments using List.reverseRecOn with
  | nil => exact Nat.le_refl _
  | append_singleton init last =>
      have hinit := length_rooted_foldl init []
      have hpush := length_rooted_push (init.foldl push []) last
      have hnil : (rooted []).length = 0 := rfl
      rw [cleared, rooted_append, List.length_append, hreverse, List.foldl_append, closing_concat, rooted_append,
        List.length_append]
      exact Nat.le_trans hpush (by omega)

theorem cleared_ne_nil {segments : List Segment} (h : segments ≠ []) : cleared segments ≠ [] := by
  obtain ⟨init, last, rfl⟩ := List.eq_nil_or_concat segments |>.resolve_left h
  rw [List.concat_eq_append, cleared, List.foldl_append, closing_concat]
  by_cases hdots : isDots last = true
  · have hclose : closing [last] = [[]] := if_pos hdots
    rw [hclose]
    exact List.append_ne_nil_of_right_ne_nil _ (List.cons_ne_nil _ _)
  · obtain ⟨hdot, hparent⟩ : last ≠ ['.'] ∧ last ≠ ['.', '.'] := by simpa [isDots] using hdots
    have hpush : push (init.foldl push []) last = last :: init.foldl push [] :=
      (if_neg hdot).trans (if_neg hparent)
    rw [List.foldl_cons, List.foldl_nil, hpush, List.reverse_cons]
    simp

theorem cleared_eq_nil {segments : List Segment} : cleared segments = [] ↔ segments = [] := by
  constructor
  · exact not_imp_not.mp cleared_ne_nil
  · rintro rfl
    rfl

-- Request targets with one query have one path.
theorem requestTarget_rooted {left right : List Segment} {query : Option (List Char)}
    (hleft : ∀ segment ∈ left, '/' ∉ segment) (hright : ∀ segment ∈ right, '/' ∉ segment)
    (hnil : left = [] ↔ right = []) :
    requestTarget (rooted left) query = requestTarget (rooted right) query ↔ left = right := by
  constructor
  · intro h
    have hpath := List.append_cancel_right h
    by_cases hempty : left = []
    · rw [hempty, hnil.mp hempty]
    · rw [if_neg (mt rooted_eq_nil.mp hempty), if_neg (mt rooted_eq_nil.mp (mt hnil.mpr hempty))] at hpath
      exact rooted_inj hleft hright hpath
  · rintro rfl
    rfl

end SingBox.Library.Uri
