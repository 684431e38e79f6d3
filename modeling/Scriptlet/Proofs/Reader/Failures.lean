import Scriptlet.Proofs.Reader.Isolation

/-!
# Problems advance

Every problem of a program is that of a declaration that could not be read, and the reader goes on
behind each of them: the tokens at which it gave up follow each other, and only the end is reported
twice (`problems_advance`).

Recovering may stop at the very token at which a declaration failed, for instance if a keyword
stands where an expression should. So the problems of one declaration and those of the next are told
apart by what a declaration does at a boundary: it passes the keyword before it can fail
(`Stmt.passed_read`). A block inside a declaration recovers on its own. Its problems are recorded
before that of the declaration and lie before it, because before the end a block passes a token
(`Stmt.passed_readBlock`).
-/

namespace Scriptlet

/-! ## What is known when a reading ends -/

namespace PageReading

variable {α β : Type} {r : PageReading α} {k : α → PageReading β} {page page' : Page}

/-- The problems known when a reading ends, with the one it fails with. -/
def known (r : PageReading α) (page : Page) : List ReadError :=
  match r page with
  | .ok _ page' => page'.errors
  | .error e page' => page'.errors ++ [e]

theorem known_of_ok {a : α} (h : r page = .ok a page') : r.known page = page'.errors := by
  rw [known, h]

theorem known_of_error {e : ReadError} (h : r page = .error e page') :
    r.known page = page'.errors ++ [e] := by
  rw [known, h]

theorem after_errors (r : PageReading α) (page : Page) :
    (r.after page).errors <+: r.known page := by
  cases ended : r page with
  | ok a page' => exact after_of_ok ended ▸ known_of_ok ended ▸ List.prefix_rfl
  | error e page' =>
    rw [after_of_error ended, known_of_error ended]
    exact List.prefix_append _ _

/-- Where no known problem comes from the bound, reading does not fail because of it. -/
theorem deep_of_shallow (shallow : Shallow (r.known page)) (e : ReadError) (page' : Page)
    (failed : r page = .error e page') : e.expected ≠ .lessNesting := by
  rw [known_of_error failed] at shallow
  exact shallow e (List.mem_append_right _ (List.mem_singleton_self e))

theorem not_shallow_tooDeep :
    ¬ Shallow ((liftM (Reading.fail .lessNesting : Reading α) : PageReading α).known page) :=
  fun shallow => deep_of_shallow shallow _ _ rfl rfl

/-! A sequence ends where its last step does. -/

theorem after_bind_of_ok {a : α} (h : r page = .ok a page') :
    (r >>= k).after page = (k a).after page' := by
  rw [after, bind_of_ok h]
  rfl

theorem known_bind_of_ok {a : α} (h : r page = .ok a page') :
    (r >>= k).known page = (k a).known page' := by
  rw [known, bind_of_ok h]
  rfl

theorem after_bind_of_error {e : ReadError} (h : r page = .error e page') :
    (r >>= k).after page = r.after page := by
  rw [after_of_error h, after_of_error (bind_of_error h)]

theorem known_bind_of_error {e : ReadError} (h : r page = .error e page') :
    (r >>= k).known page = r.known page := by
  rw [known_of_error h, known_of_error (bind_of_error h)]

theorem after_bind_pure (f : α → β) : (r >>= fun a => pure (f a)).after page = r.after page := by
  cases ended : r page with
  | ok a page' => exact (after_bind_of_ok ended).trans (after_of_ok ended).symm
  | error e page' => exact after_bind_of_error ended

theorem known_bind_pure (f : α → β) : (r >>= fun a => pure (f a)).known page = r.known page := by
  cases ended : r page with
  | ok a page' => exact (known_bind_of_ok ended).trans (known_of_ok ended).symm
  | error e page' => exact known_bind_of_error ended

end PageReading

/-! ## Past a place -/

/-- The position is past a place, or both are at the end. -/
def Stream.Beyond (s : Stream) (place : Nat) : Prop :=
  place < s.position ∨ place = s.position ∧ s.kind = .eof

theorem Stream.Beyond.le {s : Stream} {place : Nat} (h : s.Beyond place) : place ≤ s.position := by
  rcases h with before | ⟨same, -⟩
  · exact Nat.le_of_lt before
  · exact Nat.le_of_eq same

theorem Stream.Beyond.forward {s s' : Stream} {place : Nat} (h : s.Beyond place)
    (way : s.Forward s') : s'.Beyond place := by
  rcases h with before | ⟨rfl, eof⟩
  · exact .inl (Nat.lt_of_lt_of_le before way.forth)
  · exact .inr ⟨(way.position_at_end eof).symm, way.at_end eof⟩

/-! ## Failures -/

/-- A declaration that could not be read: the page it started on, the one on which reading gave up,
and the problem. -/
structure Failure where
  page : Page
  stopped : Page
  problem : ReadError

namespace Failure

/-- The position at which the declaration started. -/
def start (f : Failure) : Nat := f.page.stream.position

/-- The position at which reading gave up. -/
def place (f : Failure) : Nat := f.stopped.stream.position

/-- The declaration was read on the way from a page, and when it failed, its problem was recorded
behind those known then. -/
structure Of (f : Failure) (mode : Mode) (page : Page) (errors : List ReadError) : Prop where
  way : page.Forward f.page
  failed : ∃ n, Stmt.read mode n f.page = .error f.problem f.stopped
  recorded : f.stopped.errors ++ [f.problem] <+: errors

/-- The second failure is further on than the first one, or both are at the end. -/
def Before (f g : Failure) : Prop := g.stopped.stream.Beyond f.place

variable {mode : Mode} {page page' : Page} {errors : List ReadError} {f : Failure}

theorem Of.onward (h : f.Of mode page errors) : f.page.Forward f.stopped := by
  obtain ⟨n, failed⟩ := h.failed
  exact (Stmt.walks mode n).read.error _ _ _ failed

theorem Of.le_start (h : f.Of mode page errors) : page.stream.position ≤ f.start :=
  h.way.stream.forth

theorem Of.start_le_place (h : f.Of mode page errors) : f.start ≤ f.place := h.onward.stream.forth

theorem Of.located (h : f.Of mode page errors) :
    page.stream.tokens[f.place]? = some f.stopped.stream.here ∧
      f.problem = .atToken f.problem.expected f.stopped.stream.here := by
  obtain ⟨n, failed⟩ := h.failed
  refine ⟨?_, (Stmt.walks mode n).read.stands _ _ _ failed⟩
  rw [← (h.way.trans h.onward).stream.tokens]
  exact f.stopped.stream.getElem?_position

theorem Of.mono (h : f.Of mode page errors) {page₀ : Page} {errors' : List ReadError}
    (way : page₀.Forward page) (more : errors <+: errors') : f.Of mode page₀ errors' :=
  ⟨way.trans h.way, h.failed, h.recorded.trans more⟩

/-- A declaration that starts with a keyword does not fail at it. -/
theorem Of.start_lt_place (h : f.Of mode page errors) (ends : page.stream.Ends)
    (shallow : Shallow errors) (opens : Stmt.opens f.page.stream.kind = true) :
    f.start < f.place := by
  obtain ⟨n, failed⟩ := h.failed
  have passed := Stmt.passed_read mode n (h.way.stream.ends ends) opens
  rw [PageReading.after_of_error failed] at passed
  refine passed (PageReading.deep_of_shallow ?_)
  rw [PageReading.known_of_error failed]
  exact shallow.of_prefix h.recorded

end Failure

/-! ## Logs -/

/-- What was recorded on the way from one page to another: failures of different declarations, each
further on than those before it. -/
structure Log (mode : Mode) (page page' : Page) (log : List Failure) : Prop where
  way : page.Forward page'
  errors : page'.errors = page.errors ++ log.map (·.problem)
  genuine : ∀ f ∈ log, f.Of mode page page'.errors
  started : ∀ f ∈ log, f.start < page'.stream.position
  distinct : (log.map Failure.start).Nodup
  ordered : log.Pairwise Failure.Before

namespace Log

variable {mode : Mode} {page page₁ page' : Page} {l l' : List Failure}

theorem nil (way : page.Forward page') (same : page'.errors = page.errors) :
    Log mode page page' [] where
  way := way
  errors := by rw [same, List.map_nil, List.append_nil]
  genuine := List.forall_mem_nil _
  started := List.forall_mem_nil _
  distinct := .nil
  ordered := .nil

theorem eq_nil_of_errors (h : Log mode page page' l) (same : page'.errors = page.errors) :
    l = [] := by
  have added := h.errors
  rwa [same, List.self_eq_append_right, List.map_eq_nil_iff] at added

theorem append (first : Log mode page page₁ l) (second : Log mode page₁ page' l')
    (order : ∀ f ∈ l, ∀ g ∈ l', f.Before g) : Log mode page page' (l ++ l') where
  way := first.way.trans second.way
  errors := by rw [second.errors, first.errors, List.map_append, List.append_assoc]
  genuine := List.forall_mem_append.2
    ⟨fun f mem => (first.genuine f mem).mono (.refl page) second.way.errors,
      fun g mem => (second.genuine g mem).mono first.way List.prefix_rfl⟩
  started := List.forall_mem_append.2
    ⟨fun f mem => Nat.lt_of_lt_of_le (first.started f mem) second.way.stream.forth, second.started⟩
  distinct := by
    rw [List.map_append]
    refine List.nodup_append.2 ⟨first.distinct, second.distinct, ?_⟩
    rintro _ mem _ mem'
    obtain ⟨f, old, rfl⟩ := List.mem_map.1 mem
    obtain ⟨g, new, rfl⟩ := List.mem_map.1 mem'
    exact Nat.ne_of_lt (Nat.lt_of_lt_of_le (first.started f old) (second.genuine g new).le_start)
  ordered := List.pairwise_append.2 ⟨first.ordered, second.ordered, order⟩

/-- What is recorded behind a page lies behind all places that the page is beyond. -/
theorem before_of_beyond (h : Log mode page page' l) {f g : Failure}
    (settled : page.stream.Beyond f.place) (mem : g ∈ l) : f.Before g :=
  settled.forward ((h.genuine g mem).way.trans (h.genuine g mem).onward).stream

end Log

/-- From one page to another failures were recorded, of declarations that started at a position at
least, and the second page is beyond all of them. -/
def Page.Records (mode : Mode) (least : Nat) (page page' : Page) : Prop :=
  ∃ log, Log mode page page' log ∧ (∀ f ∈ log, page'.stream.Beyond f.place) ∧
    ∀ f ∈ log, least ≤ f.start

theorem Page.Records.trans {mode : Mode} {least least' : Nat} {page page₁ page' : Page}
    (h : page.Records mode least page₁) (h' : page₁.Records mode least' page')
    (le : least ≤ least') : page.Records mode least page' := by
  obtain ⟨l, first, settled, low⟩ := h
  obtain ⟨l', second, settled', low'⟩ := h'
  refine ⟨l ++ l', first.append second fun f mem g => second.before_of_beyond (settled f mem),
    List.forall_mem_append.2 ⟨fun f mem => (settled f mem).forward second.way.stream, settled'⟩,
    List.forall_mem_append.2 ⟨low, fun g mem => Nat.le_trans le (low' g mem)⟩⟩

/-! ## Readings that leave a log -/

namespace PageReading

variable {α β : Type} {mode : Mode} {gap : Nat} {r : PageReading α} {page : Page}

/-- From a page on, a reading leaves a log, whatever it ends with, of declarations that start behind
the first tokens. -/
def LogsFrom (mode : Mode) (gap : Nat) (r : PageReading α) (page : Page) : Prop :=
  page.stream.Ends → Shallow (r.known page) →
    page.Records mode (page.stream.position + gap) (r.after page)

/-- A reading that leaves a log wherever it starts. -/
structure Logs (mode : Mode) (gap : Nat) (r : PageReading α) : Prop where
  walks : r.Walks
  logs : ∀ page, r.LogsFrom mode gap page

theorem Logs.anywhere (h : r.Logs mode gap) : r.Logs mode 0 where
  walks := h.walks
  logs page ends shallow := by
    obtain ⟨l, log, settled, low⟩ := h.logs page ends shallow
    exact ⟨l, log, settled, fun f mem => Nat.le_trans (Nat.le_add_right _ _) (low f mem)⟩

/-- Reading from the stream records nothing. -/
theorem logs_lift {r : Reading α} (walks : r.Walks) : (liftM r : PageReading α).Logs mode gap where
  walks := walks_lift walks
  logs page _ _ := by
    have way := (walks_lift walks).after page
    refine ⟨[], .nil way ?_, List.forall_mem_nil _, List.forall_mem_nil _⟩
    cases ended : (liftM r : PageReading α) page with
    | ok a page' =>
      obtain ⟨s, -, rfl⟩ := lift_eq_ok ended
      rw [after_of_ok ended]
    | error e page' =>
      obtain ⟨s, -, rfl⟩ := lift_eq_error ended
      rw [after_of_error ended]

theorem logs_expect (kind : TokenKind) (expected : Expectation) (plain : expected ≠ .literalValue) :
    (liftM (Reading.expect kind expected) : PageReading Token).Logs mode gap :=
  logs_lift (Reading.forward.expect kind expected plain)

theorem logs_expr (n : Nat) : (liftM (Expr.read n) : PageReading Expr).Logs mode gap :=
  logs_lift (Reading.walks_expr n)

theorem logs_pure (a : α) : (pure a : PageReading α).Logs mode gap :=
  logs_lift (Reading.forward.value a)

/-- A reading that goes on behind another one, from the page on which that one ended. -/
theorem Logs.records_of_ok {r' : PageReading β} {a : α} {page₁ : Page} (hr : r.Logs mode gap)
    (hr' : r'.Logs mode gap) (ends : page.stream.Ends) (first : r page = .ok a page₁)
    (shallow : Shallow (r'.known page₁)) :
    page.Records mode (page.stream.position + gap) (r'.after page₁) := by
  have way := hr.walks.ok page a page₁ first
  have shallow₁ : Shallow (r.known page) := by
    rw [known_of_ok first]
    exact shallow.of_prefix ((hr'.walks.after page₁).errors.trans (after_errors _ _))
  have before := hr.logs page ends shallow₁
  rw [after_of_ok first] at before
  exact before.trans (hr'.logs page₁ (way.stream.ends ends) shallow)
    (Nat.add_le_add_right way.stream.forth gap)

theorem Logs.bind {k : α → PageReading β} (hr : r.Logs mode gap) (hk : ∀ a, (k a).Logs mode gap) :
    (r >>= k).Logs mode gap where
  walks := hr.walks.bind fun a => (hk a).walks
  logs page ends shallow := by
    cases first : r page with
    | ok a page₁ =>
      rw [known_bind_of_ok first] at shallow
      rw [after_bind_of_ok first]
      exact hr.records_of_ok (hk a) ends first shallow
    | error e page₁ =>
      rw [known_bind_of_error first] at shallow
      rw [after_bind_of_error first]
      exact hr.logs page ends shallow

/-- Behind a token that is passed, no declaration starts at that token. At the end, where no token
is passed, none starts at all. -/
theorem logs_next_bind {k : Token → PageReading α} (hk : ∀ t, (k t).Logs mode 0) :
    (liftM Reading.next >>= k).Logs mode 1 where
  walks := Walks.bind (walks_lift Reading.forward.next) fun t => (hk t).walks
  logs page ends shallow := by
    let page₁ : Page := { page with stream := page.stream.advance }
    have way : page.Forward page₁ := ⟨page.stream.forward_advance, List.prefix_rfl⟩
    obtain ⟨l, log, settled, low⟩ :=
      (hk page.stream.here).logs page₁ (way.stream.ends ends) shallow
    refine ⟨l, (Log.nil way rfl).append log (List.forall_mem_nil _), settled, fun f mem => ?_⟩
    by_cases eof : page.stream.kind = .eof
    · have stays := (way.trans log.way).stream.position_at_end eof
      have started := log.started f mem
      have low := (way.trans (log.genuine f mem).way).stream.forth
      exact absurd (Nat.lt_of_le_of_lt low started) (Nat.not_lt.2 (Nat.le_of_eq stays))
    · exact Stream.position_advance ends eof ▸ low f mem

theorem logsFrom_kind_bind {k : TokenKind → PageReading α}
    (hk : (k page.stream.kind).LogsFrom mode gap page) :
    (liftM Reading.kind >>= k).LogsFrom mode gap page := hk

end PageReading

/-! ## Recovering -/

section

variable {mode : Mode} {n : Nat} {boundary : Boundary} {page page₁ page' : Page} {e : ReadError}
  {l l' : List Failure}

theorem Stmt.passed_recover (ends : page.stream.Ends) (here : page.stream.kind ≠ .eof)
    (failed : Stmt.read mode n page = .error e page₁) :
    page.stream.position < (page₁.recover page.stream boundary e).stream.position := by
  obtain ⟨o, page₂, read, moved⟩ := @Stmt.recovering_moves mode n boundary page ends here
  rw [recovering_of_error failed] at read
  cases read
  exact moved

theorem Page.recover_stops {start : Stream} (ends : page.stream.Ends) :
    boundary.contains (page.recover start boundary e).stream.kind = true := by
  unfold Page.recover
  split
  · exact Stream.toBoundary_stops (page.stream.forward_advance.ends ends) boundary
  · exact Stream.toBoundary_stops ends boundary

/-- A failed declaration is recorded behind the failures inside it. -/
theorem Log.recover (ends : page.stream.Ends) (here : page.stream.kind ≠ .eof)
    (failed : Stmt.read mode n page = .error e page₁) (log : Log mode page page₁ l)
    (settled : ∀ f ∈ l, page₁.stream.Beyond f.place)
    (nested : ∀ f ∈ l, page.stream.position < f.start) :
    Log mode page (page₁.recover page.stream boundary e) (l ++ [⟨page, page₁, e⟩]) where
  way := log.way.trans (Page.forward_recover boundary e)
  errors := by
    show page₁.errors ++ [e] = _
    rw [log.errors, List.map_append, List.append_assoc]
    rfl
  genuine := List.forall_mem_append.2
    ⟨fun f mem => (log.genuine f mem).mono (.refl page) (List.prefix_append _ _),
      List.forall_mem_singleton.2 ⟨.refl page, ⟨n, failed⟩, List.prefix_rfl⟩⟩
  started := by
    have way : page₁.Forward (page₁.recover page.stream boundary e) :=
      Page.forward_recover boundary e
    exact List.forall_mem_append.2
      ⟨fun f mem => Nat.lt_of_lt_of_le (log.started f mem) way.stream.forth,
        List.forall_mem_singleton.2 (Stmt.passed_recover ends here failed)⟩
  distinct := by
    rw [List.map_append]
    refine List.nodup_append.2 ⟨log.distinct, List.pairwise_singleton _ _, ?_⟩
    rintro _ mem _ mem'
    obtain ⟨f, old, rfl⟩ := List.mem_map.1 mem
    rw [List.mem_singleton.1 mem']
    exact (Nat.ne_of_lt (nested f old)).symm
  ordered := List.pairwise_append.2 ⟨log.ordered, List.pairwise_singleton _ _,
    fun f mem => List.forall_mem_singleton.2 (settled f mem)⟩

/-- What recovering stops at starts a declaration that passes it, but for the brace that closes a
block, and the end. -/
theorem KindSet.opens_of_inside {kind : TokenKind} (h : inside.contains kind = true) :
    kind = .rightBrace ∨ kind = .eof ∨ Stmt.opens kind = true := by
  cases kind <;> first | exact absurd h (by decide) | decide

/-- Where reading goes on after recovering, nothing fails again at the place of the failure. -/
theorem Log.before_of_resumed (inner : ∀ kind, boundary.contains kind = true →
      KindSet.inside.contains kind = true) (ends : page.stream.Ends)
    (stops : boundary.contains page.stream.kind = true)
    (log : Log mode page page' l) (shallow : Shallow page'.errors)
    (brace : page.stream.kind = .rightBrace → l = []) {f g : Failure}
    (low : f.place ≤ page.stream.position) (mem : g ∈ l) : f.Before g := by
  have genuine := log.genuine g mem
  have start := genuine.le_start
  have place := genuine.start_le_place
  rcases Nat.lt_or_ge f.place g.place with before | after
  · exact .inl before
  · -- then the second declaration starts where reading went on, and fails there
    have same : g.page.stream.position = page.stream.position := by
      change g.start = _
      omega
    have there : g.page.stream.kind = page.stream.kind :=
      congrArg Token.kind (genuine.way.stream.here_eq same)
    rcases KindSet.opens_of_inside (inner _ stops) with closed | eof | opens
    · rw [brace closed] at mem
      cases mem
    · refine .inr ⟨?_, (genuine.way.trans genuine.onward).stream.at_end eof⟩
      exact Nat.le_antisymm (Nat.le_trans low (Nat.le_trans start place)) after
    · have passed := genuine.start_lt_place ends shallow (there ▸ opens)
      omega

namespace Stmt

open PageReading

variable {α : Type} {k : Option Stmt → PageReading α}

/-- A declaration with its recovery passes a token, whatever comes behind it. -/
theorem passed_item (hk : ∀ o, (k o).Walks) (ends : page.stream.Ends)
    (here : page.stream.kind ≠ .eof) : page.stream.position <
      ((recovering boundary (Stmt.read mode n) >>= k).after page).stream.position := by
  obtain ⟨o, page₁, read, moved⟩ := @recovering_moves mode n boundary page ends here
  rw [after_bind_of_ok read]
  exact Nat.lt_of_lt_of_le moved ((hk o).after page₁).stream.forth

/-- A declaration with its recovery, and what is read behind it. That passes a token before the end,
and records nothing if it starts with the brace that closes a block. -/
theorem logsFrom_item (inner : ∀ kind, boundary.contains kind = true →
      KindSet.inside.contains kind = true) (read : (Stmt.read mode n).Logs mode 1)
    (hk : ∀ o, (k o).Logs mode 0)
    (passes : ∀ o (page : Page), page.stream.Ends → page.stream.kind ≠ .eof →
      Shallow ((k o).known page) → page.stream.position < ((k o).after page).stream.position)
    (quiet : boundary.contains .rightBrace = true → ∀ o (page : Page),
      page.stream.kind = .rightBrace → ((k o).after page).errors = page.errors)
    (here : page.stream.kind ≠ .eof) :
    (recovering boundary (Stmt.read mode n) >>= k).LogsFrom mode 0 page := by
  intro ends shallow
  cases first : Stmt.read mode n page with
  | ok st page₁ =>
    rw [known_bind_of_ok (recovering_of_ok first)] at shallow
    rw [after_bind_of_ok (recovering_of_ok first)]
    exact read.anywhere.records_of_ok (hk _) ends first shallow
  | error e page₁ =>
    rw [known_bind_of_ok (recovering_of_error first)] at shallow
    rw [after_bind_of_ok (recovering_of_error first)]
    let page₂ := page₁.recover page.stream boundary e
    have way₁ := read.walks.error page e page₁ first
    have way₂ : page₁.Forward page₂ := Page.forward_recover boundary e
    have ends₂ := (way₁.trans way₂).stream.ends ends
    have stops : boundary.contains page₂.stream.kind = true :=
      Page.recover_stops (way₁.stream.ends ends)
    -- the failures inside the declaration, and its own
    have shallow₁ : Shallow ((Stmt.read mode n).known page) := by
      rw [known_of_error first]
      exact shallow.of_prefix (((hk none).walks.after page₂).errors.trans (after_errors _ _))
    obtain ⟨l, log, settled, nested⟩ := read.logs page ends shallow₁
    rw [after_of_error first] at log settled
    have log₂ : Log mode page page₂ (l ++ [⟨page, page₁, e⟩]) :=
      log.recover ends here first settled nested
    have low : ∀ f ∈ l ++ [⟨page, page₁, e⟩], f.place ≤ page₂.stream.position :=
      List.forall_mem_append.2
        ⟨fun f mem => Nat.le_trans (settled f mem).le way₂.stream.forth,
          List.forall_mem_singleton.2 way₂.stream.forth⟩
    -- those behind it
    obtain ⟨l', log', settled', -⟩ := (hk none).logs page₂ ends₂ shallow
    have shallow' := shallow.of_prefix (after_errors (k none) page₂)
    have brace : page₂.stream.kind = .rightBrace → l' = [] := fun closed =>
      log'.eq_nil_of_errors (quiet (closed ▸ stops) none page₂ closed)
    have whole := log₂.append log' fun f mem g mem' =>
      log'.before_of_resumed inner ends₂ stops shallow' brace (low f mem) mem'
    refine ⟨_, whole, List.forall_mem_append.2 ⟨fun f mem => ?_, settled'⟩,
      fun f mem => (whole.genuine f mem).le_start⟩
    by_cases eof : page₂.stream.kind = .eof
    · have there : page₂.stream.Beyond f.place :=
        (Nat.lt_or_eq_of_le (low f mem)).imp id fun same => ⟨same, eof⟩
      exact there.forward log'.way.stream
    · exact .inl (Nat.lt_of_le_of_lt (low f mem) (passes none page₂ ends₂ eof shallow))

end Stmt

end

/-! ## Statements -/

namespace Stmt

open PageReading

variable {mode : Mode} {n : Nat} {page : Page}

/-- Before the end a block passes a token, whether it can be read or not. -/
theorem passed_readBlock (ends : page.stream.Ends) (here : page.stream.kind ≠ .eof)
    (shallow : Shallow ((Stmt.readBlock mode n).known page)) :
    page.stream.position < ((Stmt.readBlock mode n).after page).stream.position := by
  cases n with
  | zero => exact absurd shallow not_shallow_tooDeep
  | succ n =>
    let P := PageReading.forward
    have rest (o : Option Stmt) := Walks.bind (Stmt.walks mode n).readBlock
      fun rest => P.value (o.toList ++ rest)
    unfold Stmt.readBlock
    rw [after_kind_bind]
    cases found : page.stream.kind
    case rightBrace => exact passed_next_bind (fun _ => P.value _) ends here
    case eof => exact absurd found here
    all_goals exact passed_item rest ends here

/-- A block that is closed at once records nothing. -/
theorem errors_readBlock_closed (closed : page.stream.kind = .rightBrace) :
    ((Stmt.readBlock mode n).after page).errors = page.errors := by
  cases n with
  | zero => rfl
  | succ n =>
    unfold Stmt.readBlock
    rw [after_kind_bind, closed]
    rfl

/-- Every production for statements leaves a log. A declaration that fails inside another one starts
behind it. -/
structure Logged (mode : Mode) (n : Nat) : Prop where
  read : (Stmt.read mode n).Logs mode 1
  readPlain : (Stmt.readPlain mode n).Logs mode 1
  readBlock : (Stmt.readBlock mode n).Logs mode 0
  readFunction : ∀ name isMethod, (Stmt.readFunction mode name isMethod n).Logs mode 0
  readClass : (Stmt.readClass mode n).Logs mode 0
  readMembers : (Stmt.readMembers mode n).Logs mode 0

theorem logged_zero : Logged mode 0 := by
  constructor <;> intros <;> exact logs_lift (Reading.walks_fail _)

section

variable (ih : Logged mode n)
include ih

theorem Logged.read_succ : (Stmt.read mode (n + 1)).Logs mode 1 := by
  have ends := Reading.forward.terminator mode
  unfold Stmt.read
  refine Logs.bind (logs_lift Reading.forward.kind) fun kind => ?_
  cases kind
  case kwVar | kwConst =>
    exact logs_next_bind fun _ => logs_lift (Reading.forward.binding ends _ (Nat.le_refl n))
  case kwFunction =>
    refine logs_next_bind fun _ => Logs.bind (logs_expect _ _ (by decide)) fun name => ?_
    exact Logs.bind (ih.readFunction name.name false) fun _ => logs_pure _
  case kwClass => exact logs_next_bind fun _ => Logs.bind ih.readClass fun _ => logs_pure _
  all_goals exact ih.readPlain

theorem Logged.readPlain_succ : (Stmt.readPlain mode (n + 1)).Logs mode 1 := by
  have ends := Reading.forward.terminator mode
  have branch := ih.readPlain.anywhere
  unfold Stmt.readPlain
  refine Logs.bind (logs_lift Reading.forward.kind) fun kind => ?_
  cases kind
  case leftBrace => exact logs_next_bind fun _ => Logs.bind ih.readBlock fun _ => logs_pure _
  case kwIf =>
    refine logs_next_bind fun _ => Logs.bind (logs_expect _ _ (by decide)) fun _ => ?_
    refine Logs.bind (logs_expr n) fun _ => Logs.bind (logs_expect _ _ (by decide)) fun _ => ?_
    refine Logs.bind branch fun _ => Logs.bind (logs_lift (Reading.forward.eat _)) fun more => ?_
    cases more with
    | true => exact Logs.bind branch fun _ => logs_pure _
    | false => exact logs_pure _
  case kwWhile =>
    refine logs_next_bind fun _ => Logs.bind (logs_expect _ _ (by decide)) fun _ => ?_
    refine Logs.bind (logs_expr n) fun _ => Logs.bind (logs_expect _ _ (by decide)) fun _ => ?_
    exact Logs.bind branch fun _ => logs_pure _
  case kwReturn =>
    exact logs_next_bind fun t => logs_lift (Reading.forward.returning ends t.span (Nat.le_refl n))
  all_goals
    refine Logs.bind (logs_expr n) fun _ => ?_
    exact Logs.bind (logs_lift (ends _ (by decide))) fun _ => logs_pure _

theorem Logged.readBlock_succ : (Stmt.readBlock mode (n + 1)).Logs mode 0 := by
  have rest (o : Option Stmt) :
      (Stmt.readBlock mode n >>= fun rest => pure (o.toList ++ rest)).Logs mode 0 :=
    Logs.bind ih.readBlock fun _ => logs_pure _
  have item {page : Page} (here : page.stream.kind ≠ .eof) :
      (recovering .inside (Stmt.read mode n) >>= fun o =>
        Stmt.readBlock mode n >>= fun rest => pure (o.toList ++ rest)).LogsFrom mode 0 page := by
    refine logsFrom_item (fun _ => id) ih.read rest ?_ ?_ here
    · intro o page ends here shallow
      rw [known_bind_pure] at shallow
      rw [after_bind_pure]
      exact passed_readBlock ends here shallow
    · intro _ o page closed
      rw [after_bind_pure]
      exact errors_readBlock_closed closed
  refine ⟨(Stmt.walks mode (n + 1)).readBlock, fun page => ?_⟩
  unfold Stmt.readBlock
  refine logsFrom_kind_bind ?_
  cases found : page.stream.kind
  case rightBrace => exact (logs_next_bind fun _ => logs_pure _).anywhere.logs page
  case eof => exact (logs_lift (Reading.walks_fail _)).logs page
  all_goals exact item (found.trans_ne (by decide))

theorem Logged.readFunction_succ (name : Name) (isMethod : Bool) :
    (Stmt.readFunction mode name isMethod (n + 1)).Logs mode 0 := by
  unfold Stmt.readFunction
  refine Logs.bind (logs_lift (Reading.forward.parameters (Nat.le_refl n))) fun params => ?_
  refine Logs.bind (logs_expect _ _ (by decide)) fun _ => ?_
  exact Logs.bind ih.readBlock fun _ => logs_pure _

theorem Logged.readClass_succ : (Stmt.readClass mode (n + 1)).Logs mode 0 := by
  unfold Stmt.readClass
  have body (name : Token) (superclass : Option Name) : PageReading.Logs mode 0
      (do
        let _ ← liftM (Reading.expect .leftBrace .openClass)
        let members ← Stmt.readMembers mode n
        return ClassDecl.ofMembers name.name superclass members) :=
    Logs.bind (logs_expect _ _ (by decide)) fun _ => Logs.bind ih.readMembers fun _ => logs_pure _
  refine Logs.bind (logs_expect _ _ (by decide)) fun name => ?_
  refine Logs.bind (logs_lift (Reading.forward.eat _)) fun isBelow => ?_
  cases isBelow with
  | true => exact Logs.bind (logs_expect _ _ (by decide)) fun token => body name (some token.name)
  | false => exact body name none

/-- What follows the name of a member, with the members after it. -/
theorem Logged.member (name : Token) (kind : TokenKind) : PageReading.Logs mode 0
    (do
      let member ← match kind with
        | .equal =>
          let _ ← Reading.next
          let value ← Expr.read n
          readTerminator mode .fieldEnd
          pure (.field ⟨name.name, value⟩)
        | .leftParen => Member.method <$> Stmt.readFunction mode name.name true n
        | _ => (Reading.fail .memberRest : Reading Member)
      let rest ← Stmt.readMembers mode n
      return member :: rest) := by
  have rest (member : Member) : PageReading.Logs mode 0
      (do
        let rest ← Stmt.readMembers mode n
        return member :: rest) :=
    Logs.bind ih.readMembers fun rest => logs_pure _
  cases kind
  case equal =>
    refine Logs.bind (logs_lift Reading.forward.next) fun _ => ?_
    refine Logs.bind (logs_expr n) fun value => ?_
    exact Logs.bind (logs_lift (Reading.forward.terminator mode _ (by decide))) fun _ =>
      rest (.field ⟨name.name, value⟩)
  case leftParen =>
    refine Logs.bind ?_ rest
    rw [map_eq_pure_bind]
    exact Logs.bind (ih.readFunction name.name true) fun decl => logs_pure _
  all_goals exact Logs.bind (logs_lift (Reading.walks_fail _)) rest

theorem Logged.readMembers_succ : (Stmt.readMembers mode (n + 1)).Logs mode 0 := by
  unfold Stmt.readMembers
  refine Logs.bind (logs_lift Reading.forward.kind) fun kind => ?_
  cases kind
  case rightBrace => exact (logs_next_bind fun _ => logs_pure _).anywhere
  case eof => exact logs_lift (Reading.walks_fail _)
  all_goals
    refine Logs.bind (logs_expect _ _ (by decide)) fun name => ?_
    exact Logs.bind (logs_lift Reading.forward.kind) fun kind => ih.member name kind

end

/-- **Every production leaves a log.** -/
theorem logged (mode : Mode) (n : Nat) : Logged mode n := by
  induction n with
  | zero => exact logged_zero
  | succ n ih =>
    exact ⟨ih.read_succ, ih.readPlain_succ, ih.readBlock_succ, ih.readFunction_succ,
      ih.readClass_succ, ih.readMembers_succ⟩

end Stmt

/-! ## Programs -/

/-- Before the end the declarations of a program pass a token too. -/
theorem passed_readProgram {mode : Mode} {n : Nat} {page : Page} (ends : page.stream.Ends)
    (here : page.stream.kind ≠ .eof) (shallow : Shallow ((readProgram mode n).known page)) :
    page.stream.position < ((readProgram mode n).after page).stream.position := by
  cases n with
  | zero => exact absurd shallow PageReading.not_shallow_tooDeep
  | succ n =>
    let P := PageReading.forward
    have rest (o : Option Stmt) := PageReading.Walks.bind
      (P.readProgram (Reading.forward.terminator mode) (Nat.le_refl n))
      fun rest => P.value (o.toList ++ rest)
    unfold readProgram
    rw [PageReading.after_kind_bind, if_neg here]
    exact Stmt.passed_item rest ends here

theorem logs_readProgram (mode : Mode) (n : Nat) : (readProgram mode n).Logs mode 0 := by
  induction n with
  | zero => exact PageReading.logs_lift (Reading.walks_fail _)
  | succ n ih =>
    have rest (o : Option Stmt) :
        (readProgram mode n >>= fun rest => pure (o.toList ++ rest)).Logs mode 0 :=
      PageReading.Logs.bind ih fun _ => PageReading.logs_pure _
    refine ⟨PageReading.forward.readProgram (Reading.forward.terminator mode) (Nat.le_refl _),
      fun page => ?_⟩
    unfold readProgram
    refine PageReading.logsFrom_kind_bind ?_
    split
    · exact (PageReading.logs_pure _).logs page
    · next here =>
      refine Stmt.logsFrom_item (fun _ => KindSet.contains_inside_of_outside) (Stmt.logged mode n).read rest ?_
        (fun brace => absurd brace (by decide)) here
      intro o page ends here shallow
      rw [PageReading.known_bind_pure] at shallow
      rw [PageReading.after_bind_pure]
      exact passed_readProgram ends here shallow

/-- **Problems advance.** The problems of a program are those of different declarations that could
not be read, one problem each. In their order, the places at which reading gave up never go back, and
each is behind the one before unless both are the end. So no token but the end is reported twice. -/
theorem problems_advance (mode : Mode) (tokens : List Token) :
    let s := Stream.ofTokens tokens
    let errors := (Program.ofTokens mode tokens).errors
    ∃ failures : List Failure,
      errors = failures.map (·.problem) ∧
      (∀ f ∈ failures, f.Of mode ⟨s, []⟩ errors ∧
        ∃ expected t, s.tokens[f.place]? = some t ∧ f.problem = .atToken expected t) ∧
      (failures.map Failure.start).Nodup ∧
      (failures.map Failure.place).Pairwise (fun i j =>
        i < j ∨ i = j ∧ ∃ t, s.tokens[j]? = some t ∧ t.kind = .eof) ∧
      ∀ i t, s.tokens[i]? = some t → t.kind ≠ .eof → (failures.map Failure.place).count i ≤ 1 := by
  intro s errors
  obtain ⟨shallow, s', read⟩ := Program.ofTokens_ends mode tokens
  have read := read _ (Nat.le_refl _)
  obtain ⟨failures, log, -, -⟩ := (logs_readProgram mode s.nestingBound).logs ⟨s, []⟩
    (Stream.ends_ofTokens tokens) (by rwa [PageReading.known_of_ok read])
  rw [PageReading.after_of_ok read] at log
  have places : (failures.map Failure.place).Pairwise (fun i j =>
      i < j ∨ i = j ∧ ∃ t, s.tokens[j]? = some t ∧ t.kind = .eof) := by
    refine List.pairwise_map.2 (log.ordered.imp_of_mem fun {f g} _ mem before => ?_)
    exact before.imp id fun ⟨same, eof⟩ => ⟨same, _, (log.genuine g mem).located.1, eof⟩
  refine ⟨failures, log.errors, fun f mem => ⟨log.genuine f mem, _, _, (log.genuine f mem).located⟩,
    log.distinct, places, fun i t found token => Nat.not_lt.1 fun twice => ?_⟩
  have pair := places.sublist (List.replicate_sublist_iff.2 twice)
  obtain before | ⟨-, u, end_, eof⟩ := (List.pairwise_cons.1 pair).1 i List.mem_cons_self
  · exact Nat.lt_irrefl i before
  · rw [found] at end_
    cases end_
    exact token eof

/-- The keyword that is no name is also where reading goes on. The end is reported for the
declaration inside the block and then for the block. -/
example :
    (Program.ofTokens .file (Scanned.tokens (scan "\x7b var if ("))).errors.map
      (fun e => (e.expected, e.span.start)) =
      [(.variableName, 6), (.expression, 10), (.closedBlock, 10)] := by
  decide +kernel

end Scriptlet
