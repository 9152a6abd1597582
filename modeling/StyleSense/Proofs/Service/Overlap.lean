/-
# Requests that overlap

Several requests that are under way at once share the cache, and each goes on
whenever its turn comes. A request that holds a document may be overtaken:
another one opens the document anew, changes it or closes it. Nothing then stops
the first from keeping what it makes of the old text, and this is found under
the name of the new one, or of none.

Nothing else can go wrong. Whatever the order of the calls, and not only when all
is quiet, the tree and the swatches of a document are those of the text that is
open, as long as no request that was overtaken has kept anything under its name
since.

The proof reasons about one request at a time. What a request knows of a document
is a property of the `Basis` that trees and swatches are made from. It is
justified in what it keeps by what it knows, and what it knows stays true until
it is overtaken, for no call of another request changes the basis before.
-/

import StyleSense.Proofs.Service.Coherence
import StyleSense.Proofs.Service.Script

namespace StyleSense.Service

open StyleSense.Assist

/-- A request, with what its answer depends on besides the cache. Settings and
parser may be replaced between two requests, so each has its own. -/
structure Order where
  settings : Settings
  parser : Option ParserCommand
  programs : Programs
  token : Token
  request : Request

namespace Order

/-- The session that answers, apart from the cache, which is shared. -/
def session (o : Order) : Session :=
  .fresh o.settings o.parser

/-- The script of the request. -/
def script (o : Order) : Script :=
  o.session.script o.programs o.token o.request

end Order

/-- A request under way, with what it has left to do. -/
structure Task where
  order : Order
  rest : Script

/-- Whether nothing is left to do. -/
def Script.isDone : Script → Bool
  | .done _ => true
  | _ => false

/-- A call that was made, and the number of the request that made it. -/
structure Event where
  number : Nat
  order : Order
  call : Call

/-- Requests under way by their numbers, the cache that they share, and the
calls that they have made, the latest first. -/
structure Moment where
  cache : Cache
  tasks : List Task
  past : List Event

namespace Moment

/-- No request has made a call yet. -/
def start (orders : List Order) : Moment :=
  ⟨.empty, orders.map fun order => ⟨order, order.script⟩, []⟩

/-- A request makes a call. -/
def make (m : Moment) (number : Nat) (order : Order) (call : Call)
    (next : call.Result → Script) : Moment where
  cache := (call.run m.cache).2
  tasks := m.tasks.set number ⟨order, next (call.run m.cache).1⟩
  past := ⟨number, order, call⟩ :: m.past

/-- A request takes its next step. One that is done has none. -/
def proceed (m : Moment) (number : Nat) : Moment :=
  match m.tasks[number]? with
  | none | some ⟨_, .done _⟩ => m
  | some ⟨order, .work next⟩ => { m with tasks := m.tasks.set number ⟨order, next⟩ }
  | some ⟨order, .call call next⟩ => m.make number order call next

/-- Requests take their steps in some order. -/
def after (m : Moment) (schedule : List Nat) : Moment :=
  schedule.foldl proceed m

/-- What holds at first and is kept by every step holds after any steps. -/
theorem after_induction {P : Moment → Prop} {m : Moment} (base : P m)
    (step : ∀ m number, P m → P (m.proceed number)) (schedule : List Nat) :
    P (m.after schedule) := by
  induction schedule generalizing m with
  | nil => exact base
  | cons number schedule ih => exact ih (step m number base)

end Moment

/-- Whether a document was opened anew or closed since a request took it up. -/
def overtaken (uri : String) (number : Nat) : List Event → Bool
  | [] => false
  | e :: past =>
      if e.number = number && e.call.takesUp uri then false
      else e.call.renews uri || overtaken uri number past

/-- Whether no request that was overtaken has kept anything under the name of a
document since this was last opened or closed. -/
def timely (uri : String) : List Event → Bool
  | [] => true
  | e :: past =>
      e.call.renews uri || timely uri past && !(e.call.keeps uri && overtaken uri e.number past)

/-- What a document was last opened with. -/
def opened? (uri : String) : List Event → Option Delivery
  | [] => none
  | e :: past =>
      if e.call.renews uri then e.order.request.delivery? uri else opened? uri past

/-- A document as it is open, if it is, and what it was last opened with. -/
structure Basis where
  document : Option Document
  delivery : Option Delivery

/-- The basis of what may be kept under a name. -/
def Moment.basis (m : Moment) (uri : String) : Basis :=
  ⟨m.cache.document? uri, opened? uri m.past⟩

section

variable (orders : List Order) (uri : String)

/-- The tree came with the document, or is what the parser makes of it for one
of the requests about it. -/
def Basis.Explains (b : Basis) (tree : Node) : Prop :=
  ∃ document, b.document = some document ∧
    ((∃ delivery, b.delivery = some delivery ∧ delivery.ast.bind Node.ofJson? = some tree) ∨
      ∃ o ∈ orders, o.request.asksAbout uri = true ∧
        o.session.parse? o.programs document = some tree)

/-- The swatches are those of the document and such a tree, for one of the
requests for them. -/
def Basis.Shows (b : Basis) (swatches : List Swatch) : Prop :=
  ∃ document tree, b.document = some document ∧ b.Explains orders uri tree ∧
    ∃ o ∈ orders, o.request = .colors uri ∧
      swatches? document tree o.session.tracker o.token = .ok (some swatches)

/-- What a request knows of the basis after a call, from what it knew before. -/
def Call.learn (o : Order) (known : Basis → Prop) : (call : Call) → call.Result → Basis → Prop
  | .document name, found, b => if name = uri then b.document = found else known b
  | .openDocument opened, _, b =>
      if opened.uri = uri then b = ⟨some opened, o.request.delivery? uri⟩ else known b
  | .tree name, found, b =>
      known b ∧ (name = uri → ∀ kept, found = some kept → b.Explains orders uri kept)
  | .close _, _, b | .storeTree .., _, b | .swatches _, _, b | .storeSwatches .., _, b => known b

/-- What a request has to know before it makes a call. -/
def Call.Justified (o : Order) (known : Basis → Prop) : Call → Prop
  | .openDocument opened =>
      ∃ ast, o.request.delivery? opened.uri = some ⟨opened.text, ast⟩
  | .storeTree name made => name = uri → ∀ b, known b → b.Explains orders uri made
  | .storeSwatches name made => name = uri → ∀ b, known b → b.Shows orders uri made
  | _ => True

/-- A script is sound if each of its calls is justified, whatever the calls
before have handed back. -/
def Script.Sound (o : Order) : (Basis → Prop) → Script → Prop
  | _, .done _ => True
  | known, .work next => next.Sound o known
  | known, .call made next =>
      made.Justified orders uri o known ∧
        ∀ result, made.Returns result →
          (next result).Sound o (made.learn orders uri o known result)

end

variable {orders : List Order} {o : Order} {uri name : String} {known : Basis → Prop}

theorem sound_deliver {opened : Document} {ast : Option Json}
    (h : o.request.delivery? opened.uri = some ⟨opened.text, ast⟩) :
    (Script.deliver opened ast).Sound orders uri o known := by
  refine ⟨⟨ast, h⟩, fun _ _ => ?_⟩
  cases htree : ast.bind Node.ofJson? with
  | none => trivial
  | some tree =>
      refine ⟨fun heq b hb => ?_, fun _ _ => trivial⟩
      obtain rfl : b = ⟨some opened, o.request.delivery? uri⟩ := by
        rwa [Call.learn, if_pos heq] at hb
      exact ⟨opened, rfl, .inl ⟨_, heq ▸ h, htree⟩⟩

/-- An analysis is sound if what follows it is. An answer is that of the document
and of a tree that is explained. -/
theorem sound_analysing {α : Type} (ho : o ∈ orders) (hasks : o.request.asksAbout name = true)
    (enabled : Bool) (analysis : Document → Node → Except Failure (Option α))
    {finish : Except Fault (Option α) → Script}
    (hfinish : ∀ known answer, (∀ found, answer = .ok (some found) →
      ∃ document tree, analysis document tree = .ok (some found) ∧
        (name = uri → ∀ b, known b →
          b.document = some document ∧ b.Explains orders uri tree)) →
      (finish answer).Sound orders uri o known) :
    (o.session.analysing o.programs enabled name analysis finish).Sound orders uri o known := by
  refine ⟨trivial, fun found hfound => ?_⟩
  cases found with
  | none => exact hfinish _ _ nofun
  | some document =>
      obtain rfl : document.uri = name := hfound document rfl
      have hholds : document.uri = uri → ∀ b,
          Call.learn orders uri o known (.document document.uri) (some document) b →
          b.document = some document := by
        intro heq b hb
        rwa [Call.learn, if_pos heq] at hb
      -- The walk is the same, whether the tree was kept or is parsed.
      have hwalking : ∀ (known : Basis → Prop) (tree : Node),
          (document.uri = uri → ∀ b, known b →
            b.document = some document ∧ b.Explains orders uri tree) →
          (Session.walking document analysis finish tree).Sound orders uri o known :=
        fun known tree hknown => hfinish known _ fun found hanswer =>
          ⟨document, tree, ok_of_mapError_eq_ok hanswer, hknown⟩
      dsimp only
      split
      · exact hfinish _ _ nofun
      · refine ⟨trivial, fun kept _ => ?_⟩
        cases kept with
        | some tree =>
            exact hwalking _ tree fun heq b hb => ⟨hholds heq b hb.1, hb.2 heq tree rfl⟩
        | none =>
            dsimp only [Script.Sound]
            cases hparsed : o.session.parse? o.programs document with
            | none => exact hfinish _ _ nofun
            | some tree =>
                have hmade : document.uri = uri → ∀ b,
                    Call.learn orders uri o (Call.learn orders uri o known
                      (.document document.uri) (some document)) (.tree document.uri) none b →
                    b.document = some document ∧ b.Explains orders uri tree := by
                  intro heq b hb
                  have hopen := hholds heq b hb.1
                  exact ⟨hopen, document, hopen, .inr ⟨o, ho, heq ▸ hasks, hparsed⟩⟩
                exact ⟨fun heq b hb => (hmade heq b hb).2, fun _ _ => hwalking _ tree hmade⟩

/-- Every request has a sound script, whatever it knows at first. -/
theorem sound_script (ho : o ∈ orders) : o.script.Sound orders uri o known := by
  have hscript : o.script = o.session.script o.programs o.token o.request := rfl
  rw [hscript]
  cases hrequest : o.request with
  | ping | configure | shutdown => trivial
  | openDocument name languageId version text ast =>
      have hdelivery : o.request.delivery? name = some ⟨text, ast⟩ := hrequest ▸ if_pos rfl
      exact sound_deliver hdelivery
  | change name version text ast =>
      refine ⟨trivial, fun found _ => ?_⟩
      cases found with
      | none => trivial
      | some previous =>
          have hdelivery : o.request.delivery? name = some ⟨text, ast⟩ := hrequest ▸ if_pos rfl
          exact sound_deliver hdelivery
  | close name => exact ⟨trivial, fun _ _ => trivial⟩
  | hover name position =>
      have hasks : o.request.asksAbout name = true := hrequest ▸ decide_eq_true rfl
      rw [Session.script]
      exact sound_analysing ho hasks _ _ fun _ _ _ => trivial
  | complete name position =>
      have hasks : o.request.asksAbout name = true := hrequest ▸ decide_eq_true rfl
      rw [Session.script]
      exact sound_analysing ho hasks _ _ fun _ _ _ => trivial
  | colors name =>
      have hasks : o.request.asksAbout name = true := hrequest ▸ decide_eq_true rfl
      refine sound_analysing ho hasks _ _ fun known answer hanswer => ?_
      rcases answer with fault | - | swatches
      · trivial
      · trivial
      · obtain ⟨document, tree, hswatches, hknown⟩ := hanswer swatches rfl
        refine ⟨fun heq b hb => ?_, fun _ _ => trivial⟩
        obtain ⟨hopen, htree⟩ := hknown heq b hb
        exact ⟨document, tree, hopen, htree, o, ho, heq ▸ hrequest, hswatches⟩
  | colorPresentation name range color => exact ⟨trivial, fun _ _ => trivial⟩

/-- All that is kept under one name, and what the requests under way know of it,
is of the text that is open. -/
structure Faithful (orders : List Order) (uri : String) (m : Moment) : Prop where
  valid : m.cache.Valid
  text : ∀ document, m.cache.document? uri = some document →
    ∃ delivery, opened? uri m.past = some delivery ∧ document.text = delivery.text
  tree : timely uri m.past = true → ∀ tree, m.cache.kept? uri = some tree →
    (m.basis uri).Explains orders uri tree
  swatches : timely uri m.past = true → ∀ swatches, m.cache.swatches? uri = some swatches →
    (m.basis uri).Shows orders uri swatches
  tasks : ∀ number task, m.tasks[number]? = some task →
    ∃ known, task.rest.Sound orders uri task.order known ∧
      (timely uri m.past = true → overtaken uri number m.past = false → known (m.basis uri))

variable {m : Moment} {number other : Nat} {task : Task} {made : Call}
  {next : made.Result → Script}

/-- After a step of one request, a request is that one with what it has left, or
one that has not moved. -/
theorem task_of_set {tasks : List Task} {moved : Task}
    (h : (tasks.set number moved)[other]? = some task) :
    other = number ∧ task = moved ∨ other ≠ number ∧ tasks[other]? = some task := by
  rw [List.getElem?_set] at h
  split at h
  case isTrue heq =>
    split at h
    · exact .inl ⟨heq.symm, (Option.some.inj h).symm⟩
    · cases h
  case isFalse hne => exact .inr ⟨Ne.symm hne, h⟩

/-- A call overtakes other requests, and the one that makes it, if that does not
take the document up. -/
theorem overtaken_make (h : number ≠ other ∨ made.takesUp uri = false) :
    overtaken uri other (m.make number o made next).past =
      (made.renews uri || overtaken uri other m.past) := by
  refine if_neg fun htakes => ?_
  obtain ⟨hsame, htakes⟩ := (Bool.and_eq_true _ _).mp htakes
  rcases h with hne | hnot
  · exact hne (of_decide_eq_true hsame)
  · exact Bool.false_ne_true (hnot.symm.trans htakes)

/-- A request that opens or closes the document: nothing is kept that could be
stale, and every other request is overtaken. -/
theorem Faithful.renewed (h : Faithful orders uri m)
    (htask : m.tasks[number]? = some ⟨o, .call made next⟩) (hrenews : made.renews uri = true) :
    Faithful orders uri (m.make number o made next) := by
  obtain ⟨known, ⟨hjustified, hsound⟩, -⟩ := h.tasks number _ htask
  obtain ⟨htree, hswatches⟩ := Call.run_of_renews h.valid hrenews
  have hopened : opened? uri (m.make number o made next).past = o.request.delivery? uri :=
    if_pos hrenews
  refine ⟨Call.valid_run h.valid made, fun document hopen => ?_, fun _ tree hkept => ?_,
    fun _ swatches hkept => ?_, fun other task hother => ?_⟩
  · cases made with
    | openDocument opened =>
        obtain rfl : opened.uri = uri := of_decide_eq_true hrenews
        obtain ⟨ast, hdelivery⟩ := hjustified
        obtain rfl : opened = document := Option.some.inj
          ((Cache.document?_openDocument_self m.cache opened).symm.trans hopen)
        exact ⟨_, hopened.trans hdelivery, rfl⟩
    | close name =>
        obtain rfl : name = uri := of_decide_eq_true hrenews
        cases (Cache.document?_close_self h.valid name).symm.trans hopen
    | _ => cases hrenews
  · cases htree.symm.trans hkept
  · cases hswatches.symm.trans hkept
  · rcases task_of_set hother with ⟨rfl, rfl⟩ | ⟨hne, hold⟩
    -- The request itself has overtaken the others if it opened the document.
    · refine ⟨_, hsound _ (Call.returns_run h.valid made), fun _ hfirst => ?_⟩
      cases made with
      | openDocument opened =>
          obtain rfl : opened.uri = uri := of_decide_eq_true hrenews
          rw [Call.learn, if_pos rfl, Moment.basis, hopened]
          exact congrArg (Basis.mk · _) (Cache.document?_openDocument_self m.cache opened)
      | close name =>
          rw [overtaken_make (.inr rfl), hrenews] at hfirst
          cases hfirst
      | _ => cases hrenews
    · obtain ⟨known, hsound, -⟩ := h.tasks other task hold
      refine ⟨known, hsound, fun _ hfirst => ?_⟩
      rw [overtaken_make (.inl (Ne.symm hne)), hrenews] at hfirst
      cases hfirst

/-- What a request that was not overtaken knows after a call, if it knew it before. -/
theorem Faithful.learned (h : Faithful orders uri m) (htimely : timely uri m.past = true)
    {known : Basis → Prop} (hrenews : made.renews uri = false)
    (hknown : made.takesUp uri = true ∨ known (m.basis uri)) :
    made.learn orders uri o known (made.run m.cache).1 (m.basis uri) := by
  cases made with
  | document name =>
      rw [Call.learn]
      split
      case isTrue hname => exact hname ▸ rfl
      case isFalse hname => exact hknown.resolve_left fun h => hname (of_decide_eq_true h)
  | openDocument opened =>
      rw [Call.learn, if_neg (of_decide_eq_false hrenews)]
      exact hknown.resolve_left fun h => of_decide_eq_false hrenews (of_decide_eq_true h)
  | tree name =>
      refine ⟨hknown.resolve_left nofun, fun hname tree htree => h.tree htimely tree ?_⟩
      rw [Call.run_tree, hname] at htree
      exact htree
  | close | storeTree | swatches | storeSwatches => exact hknown.resolve_left nofun

/-- A call that leaves the document as it is open. What it keeps is justified,
unless the request was overtaken. -/
theorem Faithful.called (h : Faithful orders uri m)
    (htask : m.tasks[number]? = some ⟨o, .call made next⟩) (hrenews : made.renews uri = false) :
    Faithful orders uri (m.make number o made next) := by
  obtain ⟨known, ⟨hjustified, hsound⟩, hknown⟩ := h.tasks number _ htask
  obtain ⟨hdocument, htree, hswatches⟩ := Call.run_of_not_renews h.valid hrenews
  have hopened : opened? uri (m.make number o made next).past = opened? uri m.past :=
    if_neg (by rw [hrenews]; exact Bool.false_ne_true)
  have htimely : timely uri (m.make number o made next).past = true →
      timely uri m.past = true ∧ (made.keeps uri = true → known (m.basis uri)) := by
    intro hnow
    rw [Moment.make, timely, hrenews, Bool.false_or, Bool.and_eq_true, Bool.not_eq_true'] at hnow
    refine ⟨hnow.1, fun hkeeps => hknown hnow.1 ?_⟩
    rw [hkeeps, Bool.true_and] at hnow
    exact hnow.2
  have hbasis : (m.make number o made next).basis uri = m.basis uri := by
    rw [Moment.basis, hopened]
    exact congrArg (Basis.mk · _) hdocument
  refine ⟨Call.valid_run h.valid made, fun document hopen => ?_, fun hnow tree hkept => ?_,
    fun hnow swatches hkept => ?_, fun other task hother => ?_⟩
  · rw [hopened]
    exact h.text document (hdocument.symm.trans hopen)
  · obtain ⟨hbefore, hkeeps⟩ := htimely hnow
    rw [hbasis]
    rcases htree tree hkept with hold | rfl
    · exact h.tree hbefore tree hold
    · exact hjustified rfl _ (hkeeps (decide_eq_true rfl))
  · obtain ⟨hbefore, hkeeps⟩ := htimely hnow
    rw [hbasis]
    rcases hswatches swatches hkept with hold | ⟨made, rfl, rfl⟩
    · exact h.swatches hbefore swatches hold
    · have hshows := hjustified rfl _ (hkeeps (decide_eq_true rfl))
      have hsorted : made.Pairwise fun a b => Coloring.startsNoLater a b = true := by
        obtain ⟨document, tree, -, -, o, -, -, hanswer⟩ := hshows
        exact pairwise_swatches? hanswer
      rwa [List.mergeSort_of_pairwise hsorted]
  · rw [hbasis]
    -- The request learns from its call. The others know what they knew.
    rcases task_of_set hother with ⟨rfl, rfl⟩ | ⟨hne, hold⟩
    · refine ⟨_, hsound _ (Call.returns_run h.valid made), fun hnow hfirst => ?_⟩
      obtain ⟨hbefore, -⟩ := htimely hnow
      refine h.learned hbefore hrenews ?_
      cases htakes : made.takesUp uri with
      | true => exact .inl rfl
      | false =>
          rw [overtaken_make (.inr htakes), hrenews] at hfirst
          exact .inr (hknown hbefore hfirst)
    · obtain ⟨known, hsound, hknown⟩ := h.tasks other task hold
      refine ⟨known, hsound, fun hnow hfirst => hknown (htimely hnow).1 ?_⟩
      rwa [overtaken_make (.inl (Ne.symm hne)), hrenews] at hfirst

theorem Faithful.proceed (h : Faithful orders uri m) (number : Nat) :
    Faithful orders uri (m.proceed number) := by
  rw [Moment.proceed]
  rcases htask : m.tasks[number]? with - | ⟨o, answer | next | ⟨made, next⟩⟩
  · exact h
  · exact h
  · refine ⟨h.valid, h.text, h.tree, h.swatches, fun other task hother => ?_⟩
    rcases task_of_set hother with ⟨rfl, rfl⟩ | ⟨-, hold⟩
    · obtain ⟨known, hsound, hknown⟩ := h.tasks other _ htask
      exact ⟨known, hsound, hknown⟩
    · exact h.tasks other task hold
  · cases hrenews : made.renews uri with
    | true => exact h.renewed htask hrenews
    | false => exact h.called htask hrenews

theorem Faithful.start (orders : List Order) (uri : String) :
    Faithful orders uri (Moment.start orders) where
  valid := Cache.valid_empty
  text _ h := nomatch h
  tree _ _ h := nomatch h
  swatches _ _ h := nomatch h
  tasks number task h := by
    obtain ⟨o, ho, rfl⟩ := List.mem_map.1 (List.mem_of_getElem? h)
    exact ⟨fun _ => True, sound_script ho, fun _ _ => trivial⟩

/-- Whatever requests are under way and in whatever order they take their steps:
while all that was kept under a name since its document was last opened, changed
or closed was kept by requests that have taken it up since, a tree that is kept
was delivered with the text that is open or made of it by a parser, swatches that
are kept are those of the open document and of such a tree, and nothing is kept
for a document that is not open. -/
theorem kept_of_timely (orders : List Order) (schedule : List Nat) (uri : String)
    (h : timely uri ((Moment.start orders).after schedule).past = true) :
    let m := (Moment.start orders).after schedule
    (∀ document, m.cache.document? uri = some document →
      ∃ delivery, opened? uri m.past = some delivery ∧ document.text = delivery.text) ∧
    (∀ tree, m.cache.kept? uri = some tree → (m.basis uri).Explains orders uri tree) ∧
    (∀ swatches, m.cache.swatches? uri = some swatches →
      (m.basis uri).Shows orders uri swatches) ∧
    (m.cache.document? uri = none →
      m.cache.kept? uri = none ∧ m.cache.swatches? uri = none) := by
  intro m
  have hm : Faithful orders uri m :=
    Moment.after_induction (Faithful.start orders uri) (fun _ number hm => hm.proceed number)
      schedule
  refine ⟨hm.text, hm.tree h, hm.swatches h, fun hclosed => ⟨?_, ?_⟩⟩
  · refine Option.eq_none_iff_forall_ne_some.2 fun tree hkept => ?_
    obtain ⟨document, hopen, -⟩ := hm.tree h tree hkept
    cases hclosed.symm.trans hopen
  · refine Option.eq_none_iff_forall_ne_some.2 fun swatches hkept => ?_
    obtain ⟨document, tree, hopen, -⟩ := hm.swatches h swatches hkept
    cases hclosed.symm.trans hopen

/-- A request under the default settings, with a parser that knows only one text. -/
def Order.knowing (text : String) (request : Request) : Order where
  settings := .default
  parser := some ⟨⟨"parser", []⟩⟩
  programs _ source := if source = text then some "\x7b\"type\":\"EmptyStatement\"\x7d" else none
  token := .never
  request

/-- A preview holds the first text of a document when this is changed. Its parser
fails, so it keeps nothing, and the swatches that are asked for at the same time
are those of the second text. -/
theorem kept_of_timely_changed :
    let orders := [.openDocument "u" "javascript" 1 "a" none, .hover "u" ⟨0, 0⟩, .colors "u",
      .change "u" 2 "b" none].map (Order.knowing "b")
    let m := (Moment.start orders).after [0, 1, 3, 3, 2, 1, 2, 1, 2, 2, 2, 2]
    timely "u" m.past = true ∧
      (∃ tree, m.cache.kept? "u" = some tree ∧ (m.basis "u").Explains orders "u" tree) ∧
      ∃ swatches, m.cache.swatches? "u" = some swatches ∧
        (m.basis "u").Shows orders "u" swatches := by
  intro orders m
  have htimely : timely "u" m.past = true := by decide +kernel
  have htree : (m.cache.kept? "u").isSome = true := by decide +kernel
  have hswatches : (m.cache.swatches? "u").isSome = true := by decide +kernel
  obtain ⟨-, hexplains, hshows, -⟩ := kept_of_timely orders _ "u" htimely
  obtain ⟨tree, hkept⟩ := Option.isSome_iff_exists.1 htree
  obtain ⟨swatches, hanswer⟩ := Option.isSome_iff_exists.1 hswatches
  exact ⟨htimely, ⟨tree, hkept, hexplains tree hkept⟩, swatches, hanswer, hshows swatches hanswer⟩

theorem parse?_knowing {text : String} {document : Document} (h : document.text ≠ text)
    (request : Request) :
    (Order.knowing text request).session.parse? (Order.knowing text request).programs document =
      none := by
  rw [Session.parse?]
  simp only [Order.session, Order.knowing, Session.fresh, Option.bind_some, ParserCommand.tree?,
    if_neg h, Option.bind_none]

/-- Swatches are asked for, and while the first text of the document is parsed,
the document is changed. When all is done, the tree and the swatches of the first
text are kept under the name of the second. -/
theorem kept_of_overtaken :
    let orders := [.openDocument "u" "javascript" 1 "a" none, .colors "u",
      .change "u" 2 "b" none].map (Order.knowing "a")
    let m := (Moment.start orders).after [0, 1, 1, 1, 2, 2, 1, 1, 1]
    (m.tasks.all fun task => task.rest.isDone) = true ∧
      (∃ tree, m.cache.kept? "u" = some tree ∧ ¬(m.basis "u").Explains orders "u" tree) ∧
      ∃ swatches, m.cache.swatches? "u" = some swatches ∧
        ¬(m.basis "u").Shows orders "u" swatches := by
  intro orders m
  have htree : (m.cache.kept? "u").isSome = true := by decide +kernel
  have hswatches : (m.cache.swatches? "u").isSome = true := by decide +kernel
  have htext : (m.basis "u").document.map (·.text) = some "b" := by decide +kernel
  have hsent : (m.basis "u").delivery.map (·.ast.isNone) = some true := by decide +kernel
  have hunexplained : ∀ tree, ¬(m.basis "u").Explains orders "u" tree := by
    rintro tree ⟨document, hdocument, ⟨delivery, hdelivery, htree⟩ | ⟨o, ho, -, hparsed⟩⟩
    · rw [hdelivery] at hsent
      rw [Option.isNone_iff_eq_none.1 (Option.some.inj hsent)] at htree
      cases htree
    · rw [hdocument] at htext
      obtain ⟨request, -, rfl⟩ := List.mem_map.1 ho
      have htext : document.text = "b" := Option.some.inj htext
      have hother : document.text ≠ "a" := by
        rw [htext]
        decide
      rw [parse?_knowing hother] at hparsed
      cases hparsed
  obtain ⟨tree, hkept⟩ := Option.isSome_iff_exists.1 htree
  obtain ⟨swatches, hshown⟩ := Option.isSome_iff_exists.1 hswatches
  refine ⟨by decide +kernel, ⟨tree, hkept, hunexplained tree⟩, swatches, hshown, ?_⟩
  rintro ⟨document, tree, -, hexplains, -⟩
  exact hunexplained tree hexplains

end StyleSense.Service
