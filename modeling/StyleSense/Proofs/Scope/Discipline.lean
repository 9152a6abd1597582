/-
# Frames over a run

A run is a list of calls on a tracker that starts without frames; a call that
fails leaves the tracker as it is. What the tracker then knows is told from the
calls alone: a frame is named by the call that opened it, it is open as long as
the number of open frames has stayed above what it was before that call, and a
binding goes into the open frame that has no other above it. The main statement
says that names are looked up just so, how many frames are there, and that
whatever happens between a push and its pop is forgotten.

The frames of the tracker follow the list of open frames, call by call. That one
invariant carries the look-ups; the restoration law rests on another, that no
call touches a frame below the innermost one.
-/

import Mathlib.Data.List.Forall2
import Mathlib.Data.List.Induction
import StyleSense.Scope.Tracker

namespace StyleSense

/-- A call that opens a frame, leaves one or binds a name. -/
inductive ScopeCall
  | push
  | pop
  | bind (name : String) (value : Value)

namespace ScopeCall

/-- What a call makes of a tracker. -/
def apply : ScopeCall → Tracker → Except ScopeError Tracker
  | push, t => .ok t.push
  | pop, t => t.pop
  | bind name value, t => t.bind name value

/-- Whether a call opens a frame. -/
def isPush : ScopeCall → Bool
  | push => true
  | _ => false

/-- The number of open frames after a call, from the number before. -/
def heightFrom : ScopeCall → Nat → Nat
  | push, n => n + 1
  | pop, n => n - 1
  | bind .., n => n

/-- The open frames after the call number `time`, innermost first. -/
def openFrom (time : Nat) : ScopeCall → List Nat → List Nat
  | push, opened => time :: opened
  | pop, opened => opened.tail
  | bind .., opened => opened

/-- How many frames are open after some calls. -/
def height (calls : List ScopeCall) : Nat :=
  calls.foldl (fun n call => call.heightFrom n) 0

/-- The call number `opened` opened a frame, which is still there after `time`
calls. -/
structure OpenAt (calls : List ScopeCall) (opened time : Nat) : Prop where
  pushed : calls[opened]? = some .push
  earlier : opened < time
  above : ∀ k, opened < k → k ≤ time → height (calls.take opened) < height (calls.take k)

/-- There the frame is the innermost one. -/
structure InnermostAt (calls : List ScopeCall) (opened time : Nat) : Prop
    extends OpenAt calls opened time where
  top : height (calls.take time) = height (calls.take opened) + 1

/-- The call number `time` binds a name in the frame that the call number
`opened` opened. -/
structure BindsAt (calls : List ScopeCall) (opened time : Nat) (name : String) (value : Value) :
    Prop where
  bound : calls[time]? = some (.bind name value)
  inside : InnermostAt calls opened time

/-- The latest call that binds a name in a frame binds it to a value. -/
def Holds (calls : List ScopeCall) (opened : Nat) (name : String) (value : Value) : Prop :=
  ∃ time, BindsAt calls opened time name value ∧
    ∀ later other, time < later → ¬BindsAt calls opened later name other

variable {calls more : List ScopeCall} {call : ScopeCall} {opened time : Nat} {name : String}
  {value : Value}

theorem height_concat (calls : List ScopeCall) (call : ScopeCall) :
    height (calls ++ [call]) = call.heightFrom (height calls) := by
  rw [height, List.foldl_append]
  rfl

theorem OpenAt.mono (h : OpenAt calls opened time) {sooner : Nat} (hle : sooner ≤ time)
    (hearlier : opened < sooner) : OpenAt calls opened sooner where
  pushed := h.pushed
  earlier := hearlier
  above k hk hto := h.above k hk (Nat.le_trans hto hle)

/-- Whether a frame is open is told by the calls so far. -/
theorem openAt_append (h : time ≤ calls.length) :
    OpenAt (calls ++ more) opened time ↔ OpenAt calls opened time := by
  have htake : ∀ {k}, k ≤ time → (calls ++ more).take k = calls.take k := fun hk =>
    List.take_append_of_le_length (Nat.le_trans hk h)
  constructor
  · intro hopen
    have hearlier := hopen.earlier
    refine ⟨?_, hearlier, fun k hk hto => ?_⟩
    · rw [← hopen.pushed, List.getElem?_append_left (by omega)]
    · rw [← htake (Nat.le_of_lt hearlier), ← htake hto]
      exact hopen.above k hk hto
  · intro hopen
    have hearlier := hopen.earlier
    refine ⟨?_, hearlier, fun k hk hto => ?_⟩
    · rw [← hopen.pushed, List.getElem?_append_left (by omega)]
    · rw [htake (Nat.le_of_lt hearlier), htake hto]
      exact hopen.above k hk hto

theorem innermostAt_append (h : time ≤ calls.length) :
    InnermostAt (calls ++ more) opened time ↔ InnermostAt calls opened time := by
  constructor
  · rintro ⟨hopen, htop⟩
    have hearlier := hopen.earlier
    rw [List.take_append_of_le_length h, List.take_append_of_le_length (by omega)] at htop
    exact ⟨(openAt_append h).1 hopen, htop⟩
  · rintro ⟨hopen, htop⟩
    have hearlier := hopen.earlier
    refine ⟨(openAt_append h).2 hopen, ?_⟩
    rwa [List.take_append_of_le_length h, List.take_append_of_le_length (by omega)]

/-- A frame is open after one more call if that call opened it, or it was open
and the call did not fall below it. -/
theorem openAt_concat :
    OpenAt (calls ++ [call]) opened (calls.length + 1) ↔
      opened = calls.length ∧ call = .push ∨
        OpenAt calls opened calls.length ∧
          height (calls.take opened) < call.heightFrom (height calls) := by
  have hend : (calls ++ [call]).take (calls.length + 1) = calls ++ [call] :=
    List.take_of_length_le (by simp)
  constructor
  · intro h
    rcases Nat.lt_or_eq_of_le (Nat.le_of_lt_succ h.earlier) with hbefore | rfl
    · right
      refine ⟨(openAt_append (Nat.le_refl _)).1 (h.mono (Nat.le_succ _) hbefore), ?_⟩
      have habove := h.above _ h.earlier (Nat.le_refl _)
      rwa [hend, height_concat, List.take_append_of_le_length (Nat.le_of_lt hbefore)] at habove
    · left
      have hpushed := h.pushed
      rw [List.getElem?_concat_length, Option.some.injEq] at hpushed
      exact ⟨rfl, hpushed⟩
  · rintro (⟨rfl, rfl⟩ | ⟨hopen, habove⟩)
    · refine ⟨List.getElem?_concat_length, Nat.lt_succ_self _, fun k hk hto => ?_⟩
      obtain rfl : k = calls.length + 1 := by omega
      rw [hend, height_concat, List.take_left]
      exact Nat.lt_succ_self _
    · have hearlier := hopen.earlier
      refine ⟨?_, by omega, fun k hk hto => ?_⟩
      · rw [← hopen.pushed, List.getElem?_append_left hearlier]
      · rw [List.take_append_of_le_length (Nat.le_of_lt hearlier)]
        rcases Nat.lt_or_eq_of_le hto with hto | rfl
        · rw [List.take_append_of_le_length (Nat.le_of_lt_succ hto)]
          exact hopen.above k hk (Nat.le_of_lt_succ hto)
        · rwa [hend, height_concat]

/-- A name is bound in a frame by the calls so far, or by the last one. -/
theorem bindsAt_concat :
    BindsAt (calls ++ [call]) opened time name value ↔
      BindsAt calls opened time name value ∨
        time = calls.length ∧ call = .bind name value ∧ InnermostAt calls opened calls.length := by
  constructor
  · rintro ⟨hbound, hinside⟩
    rcases Nat.lt_trichotomy time calls.length with hbefore | rfl | hafter
    · rw [List.getElem?_append_left hbefore] at hbound
      exact .inl ⟨hbound, (innermostAt_append (Nat.le_of_lt hbefore)).1 hinside⟩
    · rw [List.getElem?_concat_length, Option.some.injEq] at hbound
      exact .inr ⟨rfl, hbound, (innermostAt_append (Nat.le_refl _)).1 hinside⟩
    · rw [List.getElem?_eq_none (by simpa using Nat.succ_le_of_lt hafter)] at hbound
      cases hbound
  · rintro (⟨hbound, hinside⟩ | ⟨rfl, rfl, hinside⟩)
    · have hbefore := (List.getElem?_eq_some_iff.1 hbound).1
      refine ⟨?_, (innermostAt_append (Nat.le_of_lt hbefore)).2 hinside⟩
      rwa [List.getElem?_append_left hbefore]
    · exact ⟨List.getElem?_concat_length, (innermostAt_append (Nat.le_refl _)).2 hinside⟩

theorem BindsAt.lt_length (h : BindsAt calls opened time name value) : time < calls.length :=
  (List.getElem?_eq_some_iff.1 h.bound).1

/-- A call that does not bind the name in the frame leaves what the frame
holds. -/
theorem holds_concat_of_ne
    (h : ∀ other, call = .bind name other → ¬InnermostAt calls opened calls.length) :
    Holds (calls ++ [call]) opened name value ↔ Holds calls opened name value := by
  have hsame : ∀ time other, BindsAt (calls ++ [call]) opened time name other ↔
      BindsAt calls opened time name other := by
    intro time other
    rw [bindsAt_concat, or_iff_left]
    rintro ⟨-, hcall, hinside⟩
    exact h other hcall hinside
  simp only [Holds, hsame]

/-- A call that binds the name in the frame decides what the frame holds. -/
theorem holds_concat_bind (h : InnermostAt calls opened calls.length) (other : Value) :
    Holds (calls ++ [.bind name other]) opened name value ↔ other = value := by
  have hlast : BindsAt (calls ++ [.bind name other]) opened calls.length name other :=
    bindsAt_concat.2 (.inr ⟨rfl, rfl, h⟩)
  constructor
  · rintro ⟨time, hbinds, hlatest⟩
    rcases bindsAt_concat.1 hbinds with hbefore | ⟨-, hcall, -⟩
    · exact absurd hlast (hlatest _ other hbefore.lt_length)
    · cases hcall
      rfl
  · rintro rfl
    refine ⟨calls.length, hlast, fun later other hlater hbinds => ?_⟩
    have := hbinds.lt_length
    rw [List.length_append, List.length_singleton] at this
    omega

/-- Where a name is bound in a frame, some call is the latest to do so. -/
theorem exists_holds (h : BindsAt calls opened time name value) :
    ∃ latest, Holds calls opened name latest := by
  -- Times of bindings are bounded by the length of the run.
  induction hleft : calls.length - time using Nat.strongRecOn generalizing time value with
  | _ left ih =>
      by_cases hlater : ∃ later other, time < later ∧ BindsAt calls opened later name other
      · obtain ⟨later, other, hlt, hbinds⟩ := hlater
        have := hbinds.lt_length
        exact ih (calls.length - later) (by omega) hbinds rfl
      · exact ⟨value, time, h, fun later other hlt hbinds => hlater ⟨later, other, hlt, hbinds⟩⟩

theorem forall_not_holds_iff :
    (∀ value, ¬Holds calls opened name value) ↔
      ∀ time value, ¬BindsAt calls opened time name value := by
  constructor
  · intro hnone time value hbinds
    obtain ⟨latest, hlatest⟩ := exists_holds hbinds
    exact hnone latest hlatest
  · rintro hnone value ⟨time, hbinds, -⟩
    exact hnone time value hbinds

/-- The frames that are open after some calls, innermost first. -/
def openFrames (calls : List ScopeCall) : List Nat :=
  calls.zipIdx.foldl (fun opened (call, time) => call.openFrom time opened) []

theorem openFrames_concat (calls : List ScopeCall) (call : ScopeCall) :
    openFrames (calls ++ [call]) = call.openFrom calls.length (openFrames calls) := by
  rw [openFrames, List.zipIdx_append, List.foldl_append, Nat.zero_add]
  rfl

theorem lt_of_mem_openFrames (h : opened ∈ openFrames calls) : opened < calls.length := by
  induction calls using List.reverseRecOn with
  | nil => exact absurd h List.not_mem_nil
  | append_singleton calls call ih =>
      rw [List.length_append, List.length_singleton]
      rw [openFrames_concat] at h
      cases call with
      | push =>
          rcases List.mem_cons.1 h with rfl | h
          · exact Nat.lt_succ_self _
          · exact Nat.lt_succ_of_lt (ih h)
      | pop => exact Nat.lt_succ_of_lt (ih (List.mem_of_mem_tail h))
      | bind => exact Nat.lt_succ_of_lt (ih h)

theorem pairwise_openFrames (calls : List ScopeCall) : (openFrames calls).Pairwise (· > ·) := by
  induction calls using List.reverseRecOn with
  | nil => exact .nil
  | append_singleton calls call ih =>
      rw [openFrames_concat]
      cases call with
      | push => exact List.pairwise_cons.2 ⟨fun _ => lt_of_mem_openFrames, ih⟩
      | pop => exact ih.tail
      | bind => exact ih

theorem reverse_range_succ (n : Nat) :
    (List.range (n + 1)).reverse = n :: (List.range n).reverse := by
  rw [List.range_succ, List.reverse_concat]

/-- Each open frame was opened on top of those below it. -/
theorem map_height_openFrames (calls : List ScopeCall) :
    (openFrames calls).map (fun opened => height (calls.take opened)) =
      (List.range (height calls)).reverse := by
  induction calls using List.reverseRecOn with
  | nil => rfl
  | append_singleton calls call ih =>
      have hsame : ∀ opened ∈ openFrames calls,
          height ((calls ++ [call]).take opened) = height (calls.take opened) := by
        intro opened hmem
        rw [List.take_append_of_le_length (Nat.le_of_lt (lt_of_mem_openFrames hmem))]
      rw [openFrames_concat, height_concat]
      cases call with
      | push =>
          rw [openFrom, List.map_cons, List.map_congr_left hsame, ih, List.take_left, heightFrom,
            reverse_range_succ]
      | pop =>
          rw [openFrom, List.map_tail, List.map_congr_left hsame, ih, heightFrom]
          cases height calls with
          | zero => rfl
          | succ n => rw [reverse_range_succ, List.tail_cons, Nat.add_sub_cancel]
      | bind => exact (List.map_congr_left hsame).trans ih

/-- The innermost frame is one below the number of open ones, and all others are
further below. -/
theorem height_of_openFrames_eq {rest : List Nat} (h : openFrames calls = opened :: rest) :
    height calls = height (calls.take opened) + 1 ∧
      ∀ outer ∈ rest, height (calls.take outer) < height (calls.take opened) := by
  have hheights := map_height_openFrames calls
  rw [h, List.map_cons] at hheights
  cases hheight : height calls with
  | zero =>
      rw [hheight] at hheights
      cases hheights
  | succ n =>
      rw [hheight, reverse_range_succ, List.cons.injEq] at hheights
      obtain ⟨hfirst, hrest⟩ := hheights
      refine ⟨by rw [hfirst], fun outer hmem => ?_⟩
      have hbelow := List.mem_map_of_mem (f := fun opened => height (calls.take opened)) hmem
      rw [hrest, List.mem_reverse, List.mem_range] at hbelow
      rwa [hfirst]

theorem mem_openFrames : opened ∈ openFrames calls ↔ OpenAt calls opened calls.length := by
  induction calls using List.reverseRecOn generalizing opened with
  | nil =>
      constructor
      · intro h
        exact absurd h List.not_mem_nil
      · intro h
        exact absurd h.earlier (Nat.not_lt_zero _)
  | append_singleton calls call ih =>
      have hbelow : OpenAt calls opened calls.length →
          height (calls.take opened) < height calls := by
        intro h
        have := h.above _ h.earlier (Nat.le_refl _)
        rwa [List.take_length] at this
      rw [openFrames_concat, List.length_append, List.length_singleton, openAt_concat, ← ih]
      cases call with
      | push =>
          rw [openFrom, List.mem_cons, heightFrom]
          constructor
          · rintro (rfl | h)
            · exact .inl ⟨rfl, rfl⟩
            · exact .inr ⟨h, Nat.lt_succ_of_lt (hbelow (ih.1 h))⟩
          · rintro (⟨rfl, -⟩ | ⟨h, -⟩)
            · exact .inl rfl
            · exact .inr h
      | pop =>
          rw [openFrom, heightFrom]
          cases hframes : openFrames calls with
          | nil => simp
          | cons first rest =>
              obtain ⟨hfirst, hrest⟩ := height_of_openFrames_eq hframes
              rw [List.tail_cons]
              constructor
              · intro h
                have := hrest opened h
                exact .inr ⟨List.mem_cons_of_mem _ h, by omega⟩
              · rintro (⟨-, hcall⟩ | ⟨h, hlt⟩)
                · cases hcall
                · rcases List.mem_cons.1 h with rfl | h
                  · omega
                  · exact h
      | bind other value =>
          rw [openFrom, heightFrom]
          constructor
          · intro h
            exact .inr ⟨h, hbelow (ih.1 h)⟩
          · rintro (⟨-, hcall⟩ | ⟨h, -⟩)
            · cases hcall
            · exact h

theorem innermostAt_iff {first : Nat} {rest : List Nat} (h : openFrames calls = first :: rest)
    (hmem : opened ∈ openFrames calls) :
    InnermostAt calls opened calls.length ↔ opened = first := by
  obtain ⟨hfirst, hrest⟩ := height_of_openFrames_eq h
  constructor
  · rintro ⟨-, htop⟩
    rw [List.take_length] at htop
    rcases List.mem_cons.1 (h ▸ hmem) with rfl | hmem
    · rfl
    · have := hrest opened hmem
      omega
  · rintro rfl
    refine ⟨mem_openFrames.1 hmem, ?_⟩
    rwa [List.take_length]

end ScopeCall

namespace Tracker

open ScopeCall

variable {t : Tracker} {calls : List ScopeCall} {call : ScopeCall} {opened time : Nat}
  {name : String} {value : Value}

/-- A tracker after a call; one that fails changes nothing. -/
def step (t : Tracker) (call : ScopeCall) : Tracker :=
  match call.apply t with
  | .ok next => next
  | .error _ => t

/-- A tracker after several calls. -/
def run (t : Tracker) (calls : List ScopeCall) : Tracker :=
  calls.foldl step t

/-- Whether a call leaves a frame. -/
def leaves (t : Tracker) : ScopeCall → Bool
  | .pop => t.pop.isOk
  | _ => false

/-- How many of the calls leave a frame. -/
def popped (t : Tracker) : List ScopeCall → Nat
  | [] => 0
  | call :: calls => (if t.leaves call then 1 else 0) + (t.step call).popped calls

theorem run_append (t : Tracker) (calls more : List ScopeCall) :
    t.run (calls ++ more) = (t.run calls).run more :=
  List.foldl_append

theorem run_concat (t : Tracker) (calls : List ScopeCall) (call : ScopeCall) :
    t.run (calls ++ [call]) = (t.run calls).step call :=
  t.run_append calls [call]

theorem run_take_succ (t : Tracker) (h : calls[time]? = some call) :
    t.run (calls.take (time + 1)) = (t.run (calls.take time)).step call := by
  rw [List.take_add_one, h, Option.toList_some, run_concat]

theorem frames_step_push (t : Tracker) : (t.step .push).frames = [] :: t.frames := rfl

theorem frames_step_pop (t : Tracker) : (t.step .pop).frames = t.frames.tail := by
  obtain ⟨frames, _, _, _⟩ := t
  cases frames <;> rfl

theorem frames_step_bind (t : Tracker) (name : String) (value : Value) :
    (t.step (.bind name value)).frames = t.frames.modifyHead (Dictionary.put name value) := by
  obtain ⟨frames, _, _, _⟩ := t
  cases frames <;> rfl

theorem step_of_error {error : ScopeError} (h : call.apply t = .error error) :
    t.step call = t := by
  rw [step, h]

theorem depth_step (t : Tracker) (call : ScopeCall) :
    (t.step call).depth = call.heightFrom t.depth := by
  unfold depth
  cases call with
  | push => rw [frames_step_push, List.length_cons, heightFrom]
  | pop => rw [frames_step_pop, List.length_tail, heightFrom]
  | bind name value => rw [frames_step_bind, List.length_modifyHead, heightFrom]

theorem depth_step_add (t : Tracker) (call : ScopeCall) :
    (t.step call).depth + (if t.leaves call then 1 else 0) =
      t.depth + (if call.isPush then 1 else 0) := by
  rw [depth_step]
  cases call with
  | push => rfl
  | pop =>
      obtain ⟨frames, _, _, _⟩ := t
      cases frames <;> rfl
  | bind name value => rfl

theorem depth_run_add (t : Tracker) (calls : List ScopeCall) :
    (t.run calls).depth + t.popped calls = t.depth + calls.countP isPush := by
  induction calls generalizing t with
  | nil => rfl
  | cons call calls ih =>
      have hstep := t.depth_step_add call
      have hrest : (t.run (call :: calls)).depth + (t.step call).popped calls =
          (t.step call).depth + calls.countP isPush := ih (t.step call)
      rw [popped, List.countP_cons]
      omega

theorem depth_run (h : t.frames = []) (calls : List ScopeCall) :
    (t.run calls).depth = height calls := by
  induction calls using List.reverseRecOn with
  | nil => exact congrArg List.length h
  | append_singleton calls call ih => rw [run_concat, depth_step, ih, height_concat]

theorem length_frames_run (h : t.frames = []) (calls : List ScopeCall) :
    (t.run calls).frames.length = height calls :=
  depth_run h calls

/-- A frame gives every name the value that the calls left in it. -/
def Records (calls : List ScopeCall) (opened : Nat) (frame : Dictionary Value) : Prop :=
  ∀ name value, Dictionary.get? name frame = some value ↔ Holds calls opened name value

namespace Records

variable {frame : Dictionary Value}

/-- A new frame holds nothing. -/
theorem fresh (calls : List ScopeCall) : Records (calls ++ [.push]) calls.length [] := by
  intro name value
  constructor
  · intro h
    cases h
  · rintro ⟨time, hbinds, -⟩
    have hafter := hbinds.inside.earlier
    have := hbinds.lt_length
    rw [List.length_append, List.length_singleton] at this
    omega

theorem concat (h : Records calls opened frame)
    (hquiet : ∀ name value, call = .bind name value → ¬InnermostAt calls opened calls.length) :
    Records (calls ++ [call]) opened frame := by
  intro name value
  rw [h name value, holds_concat_of_ne (hquiet name)]

theorem bind (h : Records calls opened frame) (hinside : InnermostAt calls opened calls.length)
    (name : String) (value : Value) :
    Records (calls ++ [.bind name value]) opened (Dictionary.put name value frame) := by
  intro other found
  by_cases hname : other = name
  · subst hname
    rw [Dictionary.get?_put_self, Option.some.injEq, holds_concat_bind hinside]
  · rw [Dictionary.get?_put_of_ne hname, h other found, holds_concat_of_ne]
    rintro other' hcall -
    cases hcall
    exact hname rfl

theorem get?_eq_none_iff (h : Records calls opened frame) :
    Dictionary.get? name frame = none ↔ ∀ value, ¬Holds calls opened name value := by
  rw [Option.eq_none_iff_forall_ne_some]
  exact forall_congr' fun value => not_congr (h name value)

end Records

/-- The frames of the tracker are the open frames, in their order. -/
theorem forall₂_records (h : t.frames = []) (calls : List ScopeCall) :
    List.Forall₂ (Records calls) (openFrames calls) (t.run calls).frames := by
  induction calls using List.reverseRecOn with
  | nil =>
      show List.Forall₂ _ [] t.frames
      rw [h]
      exact .nil
  | append_singleton calls call ih =>
      rw [run_concat, openFrames_concat]
      cases call with
      | push =>
          rw [frames_step_push, openFrom]
          refine .cons (Records.fresh calls) (ih.imp fun opened frame hrecords => ?_)
          exact hrecords.concat fun _ _ hcall => nomatch hcall
      | pop =>
          rw [frames_step_pop, openFrom, ← List.drop_one, ← List.drop_one]
          refine List.forall₂_drop 1 (ih.imp fun opened frame hrecords => ?_)
          exact hrecords.concat fun _ _ hcall => nomatch hcall
      | bind name value =>
          rw [frames_step_bind, openFrom]
          cases hopened : openFrames calls with
          | nil =>
              rw [hopened, List.forall₂_nil_left_iff] at ih
              rw [ih]
              exact .nil
          | cons first rest =>
              have hfirst : first ∈ openFrames calls := hopened ▸ List.mem_cons_self
              have hsorted := List.pairwise_cons.1 (hopened ▸ pairwise_openFrames calls)
              rw [hopened, List.forall₂_cons_left_iff] at ih
              obtain ⟨frame, outer, hrecords, hrest, hframes⟩ := ih
              rw [hframes, List.modifyHead_cons]
              refine .cons (hrecords.bind ((innermostAt_iff hopened hfirst).2 rfl) name value) ?_
              -- The frames below are not the innermost one, so the call leaves them alone.
              have hbelow : ∀ opened ∈ rest, ¬InnermostAt calls opened calls.length := by
                intro opened hmem hinside
                have hsame := (innermostAt_iff hopened (hopened ▸ List.mem_cons_of_mem _ hmem)).1
                  hinside
                exact Nat.lt_irrefl _ (hsame ▸ hsorted.1 opened hmem)
              refine ((List.forall₂_and_left rest outer).2 ⟨hbelow, hrest⟩).imp ?_
              rintro opened frame ⟨hbelow, hrecords⟩
              exact hrecords.concat fun _ _ _ => hbelow

section

variable {frames : List (Dictionary Value)} {stack : List Nat}

/-- The first value found is that of the innermost frame that holds one. -/
theorem findSome?_eq_some_iff_of_records (h : List.Forall₂ (Records calls) stack frames)
    (hsorted : stack.Pairwise (· > ·)) :
    frames.findSome? (Dictionary.get? name) = some value ↔
      ∃ opened ∈ stack, Holds calls opened name value ∧
        ∀ inner ∈ stack, opened < inner → ∀ other, ¬Holds calls inner name other := by
  induction h with
  | nil => simp
  | @cons first frame stack frames hfirst _ ih =>
      obtain ⟨hbelow, hsorted⟩ := List.pairwise_cons.1 hsorted
      rw [List.findSome?_cons]
      cases hfound : Dictionary.get? name frame with
      | some found =>
          have hholds := (hfirst name found).1 hfound
          constructor
          · rintro ⟨⟩
            refine ⟨first, List.mem_cons_self, hholds, fun inner hmem hlt => ?_⟩
            rcases List.mem_cons.1 hmem with rfl | hmem
            · exact absurd hlt (Nat.lt_irrefl _)
            · exact absurd hlt (Nat.lt_asymm (hbelow inner hmem))
          · rintro ⟨opened, hmem, hopened, hinner⟩
            rcases List.mem_cons.1 hmem with rfl | hmem
            · exact hfound.symm.trans ((hfirst name value).2 hopened)
            · exact absurd hholds (hinner first List.mem_cons_self (hbelow opened hmem) found)
      | none =>
          have hnone := hfirst.get?_eq_none_iff.1 hfound
          rw [ih hsorted]
          constructor
          · rintro ⟨opened, hmem, hopened, hinner⟩
            refine ⟨opened, List.mem_cons_of_mem _ hmem, hopened, fun inner hmem hlt => ?_⟩
            rcases List.mem_cons.1 hmem with rfl | hmem
            · exact hnone
            · exact hinner inner hmem hlt
          · rintro ⟨opened, hmem, hopened, hinner⟩
            rcases List.mem_cons.1 hmem with rfl | hmem
            · exact absurd hopened (hnone value)
            · exact ⟨opened, hmem, hopened, fun inner hinnerMem =>
                hinner inner (List.mem_cons_of_mem _ hinnerMem)⟩

theorem findSome?_eq_none_iff_of_records (h : List.Forall₂ (Records calls) stack frames) :
    frames.findSome? (Dictionary.get? name) = none ↔
      ∀ opened ∈ stack, ∀ value, ¬Holds calls opened name value := by
  induction h with
  | nil => simp
  | @cons first frame stack frames hfirst _ ih =>
      rw [List.findSome?_cons, List.forall_mem_cons]
      cases hfound : Dictionary.get? name frame with
      | some found =>
          have hholds := (hfirst name found).1 hfound
          constructor
          · intro h
            cases h
          · intro h
            exact absurd hholds (h.1 found)
      | none =>
          rw [ih, iff_and_self]
          exact fun _ => hfirst.get?_eq_none_iff.1 hfound

end

/-- A name has the value of the latest binding in the innermost open frame that
has one. -/
theorem lookup?_run_eq_some_iff (h : t.frames = []) (calls : List ScopeCall) (name : String)
    (value : Value) :
    (t.run calls).lookup? name = some value ↔
      ∃ opened, OpenAt calls opened calls.length ∧ Holds calls opened name value ∧
        ∀ inner, OpenAt calls inner calls.length → opened < inner →
          ∀ time other, ¬BindsAt calls inner time name other := by
  rw [lookup?, findSome?_eq_some_iff_of_records (forall₂_records h calls)
    (pairwise_openFrames calls)]
  simp only [mem_openFrames, forall_not_holds_iff]

theorem lookup?_run_eq_none_iff (h : t.frames = []) (calls : List ScopeCall) (name : String) :
    (t.run calls).lookup? name = none ↔
      ∀ opened, OpenAt calls opened calls.length →
        ∀ time value, ¬BindsAt calls opened time name value := by
  rw [lookup?, findSome?_eq_none_iff_of_records (forall₂_records h calls)]
  simp only [mem_openFrames, forall_not_holds_iff]

theorem lookup?_of_frames_eq {u : Tracker} (h : t.frames = u.frames) (name : String) :
    t.lookup? name = u.lookup? name := by
  rw [lookup?, lookup?, h]

theorem suffix_tail {α : Type} {xs ys : List α} (h : xs <:+ ys) (hlt : xs.length < ys.length) :
    xs <:+ ys.tail := by
  cases ys with
  | nil => exact h
  | cons y ys =>
      rcases List.suffix_cons_iff.1 h with rfl | h
      · exact absurd hlt (Nat.lt_irrefl _)
      · exact h

/-- As long as a frame is open, those below it stay as they were. -/
theorem frames_suffix (h : t.frames = []) (hopen : OpenAt calls opened time)
    (hle : time ≤ calls.length) :
    (t.run (calls.take opened)).frames <:+ (t.run (calls.take time)).frames := by
  induction time with
  | zero => exact absurd hopen.earlier (Nat.not_lt_zero _)
  | succ k ih =>
      have hcall := List.getElem?_eq_getElem hle
      rw [run_take_succ t hcall]
      rcases Nat.lt_or_eq_of_le (Nat.le_of_lt_succ hopen.earlier) with hbefore | rfl
      · have hbelow := ih (hopen.mono (Nat.le_succ k) hbefore) (Nat.le_of_lt hle)
        have habove := hopen.above k hbefore (Nat.le_succ k)
        have htail := suffix_tail hbelow (by rwa [length_frames_run h, length_frames_run h])
        cases calls[k] with
        | push => exact hbelow.trans (List.suffix_cons _ _)
        | pop =>
            rw [frames_step_pop]
            exact htail
        | bind name value =>
            rw [frames_step_bind]
            refine htail.trans ?_
            cases (t.run (calls.take k)).frames with
            | nil => exact List.suffix_rfl
            | cons frame outer => exact List.suffix_cons _ _
      · have hpushed := hopen.pushed
        rw [hcall, Option.some.injEq] at hpushed
        rw [hpushed]
        exact List.suffix_cons _ _

/-- The pop of a frame brings back all that was before its push. -/
theorem frames_run_of_popped (h : t.frames = []) (hinside : InnermostAt calls opened time)
    (hpop : calls[time]? = some .pop) :
    (t.run (calls.take (time + 1))).frames = (t.run (calls.take opened)).frames := by
  have hlt := (List.getElem?_eq_some_iff.1 hpop).1
  have htop := hinside.top
  have hsuffix := frames_suffix h hinside.toOpenAt (Nat.le_of_lt hlt)
  rw [run_take_succ t hpop, frames_step_pop]
  refine (List.IsSuffix.eq_of_length (suffix_tail hsuffix ?_) ?_).symm
  · rw [length_frames_run h, length_frames_run h]
    omega
  · rw [List.length_tail, length_frames_run h, length_frames_run h]
    omega

/-- The main statement, for every run from a tracker without frames. A call that
fails changes no look-up and no depth. The depth is the number of pushes less
the number of pops that succeed, and so the height of the calls. A name has the
value of the latest binding in the innermost open frame that binds it, and none
where no open frame does. And when a frame is popped, every look-up is what it
was before that frame was pushed. -/
theorem run_disciplined (h : t.frames = []) (calls : List ScopeCall) :
    (∀ time call error, calls[time]? = some call →
      call.apply (t.run (calls.take time)) = .error error →
        (t.run (calls.take (time + 1))).depth = (t.run (calls.take time)).depth ∧
        ∀ name, (t.run (calls.take (time + 1))).lookup? name =
          (t.run (calls.take time)).lookup? name) ∧
    ((t.run calls).depth + t.popped calls = calls.countP isPush ∧
      (t.run calls).depth = height calls) ∧
    (∀ name value, (t.run calls).lookup? name = some value ↔
      ∃ opened, OpenAt calls opened calls.length ∧ Holds calls opened name value ∧
        ∀ inner, OpenAt calls inner calls.length → opened < inner →
          ∀ time other, ¬BindsAt calls inner time name other) ∧
    (∀ name, (t.run calls).lookup? name = none ↔
      ∀ opened, OpenAt calls opened calls.length →
        ∀ time value, ¬BindsAt calls opened time name value) ∧
    (∀ opened time, InnermostAt calls opened time → calls[time]? = some .pop →
      ∀ name, (t.run (calls.take (time + 1))).lookup? name =
        (t.run (calls.take opened)).lookup? name) := by
  refine ⟨?_, ⟨?_, depth_run h calls⟩, lookup?_run_eq_some_iff h calls,
    lookup?_run_eq_none_iff h calls, ?_⟩
  · intro time call error hcall herror
    rw [run_take_succ t hcall, step_of_error herror]
    exact ⟨rfl, fun _ => rfl⟩
  · have hdepth : t.depth = 0 := congrArg List.length h
    have hcount := t.depth_run_add calls
    rwa [hdepth, Nat.zero_add] at hcount
  · intro opened time hinside hpop
    exact lookup?_of_frames_eq (frames_run_of_popped h hinside hpop)

/-- A run with two calls that fail, and a frame that shadows a name for a
while. -/
def shadowing : List ScopeCall :=
  [.pop, .bind "a" .null, .push, .bind "a" (.bool true), .push, .bind "a" (.bool false), .pop,
    .bind "b" .null, .push]

theorem innermostAt_shadowing : InnermostAt shadowing 4 6 := by
  refine ⟨⟨rfl, by decide, fun k hk hto => ?_⟩, rfl⟩
  obtain rfl | rfl : k = 5 ∨ k = 6 := by omega
  · decide
  · decide

/-- The name has its outer value again once the inner frame is popped. -/
theorem run_disciplined_shadowing :
    new.frames = [] ∧ ScopeCall.apply .pop (new.run (shadowing.take 0)) = .error .underflow ∧
      (new.run (shadowing.take 1)).depth = (new.run (shadowing.take 0)).depth ∧
      InnermostAt shadowing 4 6 ∧ shadowing[6]? = some .pop ∧
      (new.run (shadowing.take 6)).lookup? "a" = some (.bool false) ∧
      (new.run (shadowing.take 7)).lookup? "a" = (new.run (shadowing.take 4)).lookup? "a" ∧
      (new.run shadowing).lookup? "a" = some (.bool true) ∧
      ∃ opened, OpenAt shadowing opened 9 ∧ Holds shadowing opened "a" (.bool true) := by
  obtain ⟨hfails, -, hsome, -, hpopped⟩ := run_disciplined (t := new) rfl shadowing
  obtain ⟨opened, hopen, hholds, -⟩ := (hsome "a" (.bool true)).1 rfl
  exact ⟨rfl, rfl, (hfails 0 .pop .underflow rfl rfl).1, innermostAt_shadowing, rfl, rfl,
    hpopped 4 6 innermostAt_shadowing rfl "a", rfl, opened, hopen, hholds⟩

end Tracker

end StyleSense
