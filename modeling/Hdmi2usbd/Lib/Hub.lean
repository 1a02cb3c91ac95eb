import Mathlib.Data.List.Basic
import Mathlib.Data.List.TakeWhile
import Mathlib.Logic.Function.Basic

/-!
# Hub — one link shared by many ports

A hub has a link and any number of ports, each with a queue of what came in and one of what goes
out. It relays what comes in on the link to every port, and hands the lines that come in on a port
to the link. Link and ports come and go: each time one is attached it gets a new key, and a link
that is attached again keeps its queues. What does not fit into a queue is lost, and so is what is
queued for something detached.

The hub is a transition system with labels for what can be seen from outside; the loss of what is
queued is silent. Whatever its runs do, nothing is invented, repeated or put out of order
(`Trace.books`).
-/

namespace Hub

open scoped List

/-! ## Traces of a labelled transition system -/

/-- The labels seen on the way from a state to another. A step without a label is silent. -/
inductive Trace {σ ι : Type*} (Step : σ → Option ι → σ → Prop) (start : σ) : List ι → σ → Prop
  | nil : Trace Step start [] start
  | step {as : List ι} {s s' : σ} {a : Option ι} :
      Trace Step start as s → Step s a s' → Trace Step start (as ++ a.toList) s'

section Trace

variable {σ ι ε : Type*} {Step : σ → Option ι → σ → Prop} {start s s' : σ} {as : List ι}

/-- What holds at the start and is kept by every step holds at the end of every trace. -/
theorem Trace.invariant (I : List ι → σ → Prop) (hstart : I [] start)
    (hstep : ∀ {as s a s'}, I as s → Step s a s' → I (as ++ a.toList) s')
    (h : Trace Step start as s) : I as s := by
  induction h with
  | nil => exact hstart
  | step _ hs ih => exact hstep ih hs

/-- The trace of a log, of whose events some have a label. -/
theorem Trace.snoc {label : ε → Option ι} {log : List ε} (ev : ε)
    (h : Trace Step start (log.filterMap label) s) (hstep : Step s (label ev) s') :
    Trace Step start ((log ++ [ev]).filterMap label) s' := by
  have hlast : (log ++ [ev]).filterMap label = log.filterMap label ++ (label ev).toList := by
    cases hev : label ev <;> simp [hev]
  rw [hlast]
  exact h.step hstep

/-- Events without a label do not show in the trace. -/
theorem Trace.quiet {label : ε → Option ι} {log evs : List ε} (hevs : ∀ ev ∈ evs, label ev = none)
    (h : Trace Step start (log.filterMap label) s) :
    Trace Step start ((log ++ evs).filterMap label) s := by
  have hnone : evs.filterMap label = [] := List.filterMap_eq_nil_iff.mpr hevs
  rwa [List.filterMap_append, hnone, List.append_nil]

end Trace

/-! ## What can be seen of a hub -/

/-- What a key is attached as; under the keys that are neither of the link nor of a port nothing
passes that the hub looks at. -/
inductive Role
  | link
  | port
  | other
deriving DecidableEq, Repr

inductive Act (κ α : Type*)
  | attach (role : Role) (k : κ)
  | detach (k : κ)
  | receive (k : κ) (items : List α)
  | send (k : κ) (items : List α)
  | relay (items : List α)
  | copy (k : κ) (items : List α)
  | command (k : κ) (line : List α)
  | reset

variable {κ α : Type*}

/-- The key an act is about. -/
def Act.key : Act κ α → Option κ
  | .attach _ k | .detach k | .receive k _ | .send k _ | .copy k _ | .command k _ => some k
  | .relay _ | .reset => none

/-- The keys attached in a role. -/
def keysOf (role : Role) (as : List (Act κ α)) : List κ :=
  as.filterMap fun
    | .attach r k => if r = role then some k else none
    | _ => none

/-- What was relayed, in order. -/
def relayed (as : List (Act κ α)) : List α :=
  as.flatMap fun
    | .relay items => items
    | _ => []

/-- The lines that were handed to the link, in order. -/
def commands (as : List (Act κ α)) : List (List α) :=
  as.filterMap fun
    | .command _ line => some line
    | _ => none

section Reading

variable (as bs : List (Act κ α))

@[simp] theorem keysOf_append (role : Role) :
    keysOf role (as ++ bs) = keysOf role as ++ keysOf role bs := List.filterMap_append

@[simp] theorem relayed_append : relayed (as ++ bs) = relayed as ++ relayed bs :=
  List.flatMap_append

@[simp] theorem commands_append : commands (as ++ bs) = commands as ++ commands bs :=
  List.filterMap_append

theorem mem_keysOf {k : κ} {role : Role} {as : List (Act κ α)} :
    k ∈ keysOf role as ↔ .attach role k ∈ as := by
  constructor
  · intro h
    rcases List.mem_filterMap.mp h with ⟨a, ha, hk⟩
    cases a with
    | attach r j =>
      by_cases hr : r = role
      · simp only [hr, if_true, Option.some.injEq] at hk
        rwa [hr, hk] at ha
      · simp [hr] at hk
    | _ => cases hk
  · intro h
    exact List.mem_filterMap.mpr ⟨_, h, by simp⟩

variable [DecidableEq κ]

/-- What came in under the keys, in order. -/
def received (keys : List κ) (as : List (Act κ α)) : List α :=
  as.flatMap fun
    | .receive k items => if k ∈ keys then items else []
    | _ => []

/-- What went out under the keys, in order. -/
def sent (keys : List κ) (as : List (Act κ α)) : List α :=
  as.flatMap fun
    | .send k items => if k ∈ keys then items else []
    | _ => []

/-- The lines that came from one port. -/
def commandsFrom (k : κ) (as : List (Act κ α)) : List (List α) :=
  as.filterMap fun
    | .command j line => if j = k then some line else none
    | _ => none

/-- What was done from the attachment of a key on. -/
def since (k : κ) (as : List (Act κ α)) : List (Act κ α) :=
  as.dropWhile fun
    | .attach _ j => j ≠ k
    | _ => true

@[simp] theorem received_append (keys : List κ) :
    received keys (as ++ bs) = received keys as ++ received keys bs := List.flatMap_append

@[simp] theorem sent_append (keys : List κ) :
    sent keys (as ++ bs) = sent keys as ++ sent keys bs := List.flatMap_append

@[simp] theorem commandsFrom_append (k : κ) :
    commandsFrom k (as ++ bs) = commandsFrom k as ++ commandsFrom k bs := List.filterMap_append

variable {as bs} {keys keys' : List κ} {k : κ}

/-- Keys that differ only in those nothing was done under. -/
theorem received_congr (h : ∀ a ∈ as, ∀ k, a.key = some k → (k ∈ keys ↔ k ∈ keys')) :
    received keys as = received keys' as := by
  refine List.flatMap_congr fun a ha => ?_
  cases a with
  | receive k items => simp only [h _ ha k rfl]
  | _ => rfl

theorem sent_congr (h : ∀ a ∈ as, ∀ k, a.key = some k → (k ∈ keys ↔ k ∈ keys')) :
    sent keys as = sent keys' as := by
  refine List.flatMap_congr fun a ha => ?_
  cases a with
  | send k items => simp only [h _ ha k rfl]
  | _ => rfl

theorem received_of_not_mem (h : ∀ a ∈ as, ∀ k, a.key = some k → k ∉ keys) :
    received keys as = [] := by
  refine List.flatMap_eq_nil_iff.mpr fun a ha => ?_
  cases a with
  | receive k items => exact if_neg (h _ ha k rfl)
  | _ => rfl

theorem sent_of_not_mem (h : ∀ a ∈ as, ∀ k, a.key = some k → k ∉ keys) : sent keys as = [] := by
  refine List.flatMap_eq_nil_iff.mpr fun a ha => ?_
  cases a with
  | send k items => exact if_neg (h _ ha k rfl)
  | _ => rfl

theorem commandsFrom_of_not_mem (h : ∀ a ∈ as, ∀ j, a.key = some j → j ∉ [k]) :
    commandsFrom k as = [] := by
  refine List.filterMap_eq_nil_iff.mpr fun a ha => ?_
  cases a with
  | command j line => exact if_neg fun heq => h _ ha j rfl (List.mem_singleton.mpr heq)
  | _ => rfl

/-- Once the key is attached, all that follows counts. -/
theorem since_append_of_mem {role : Role} (h : .attach role k ∈ as) :
    since k (as ++ bs) = since k as ++ bs := by
  rw [since, List.dropWhile_append, if_neg]
  · rfl
  · rw [List.isEmpty_iff, List.dropWhile_eq_nil_iff]
    intro hall
    have := hall _ h
    simp at this

end Reading

/-! ## The hub -/

/-- One end of the hub: whether it is up, what has come in, and what is to go out. -/
structure Port (α : Type*) where
  up : Bool
  inbox : List α
  outbox : List α

namespace Port

/-- The end of nothing. -/
def blank : Port α := ⟨false, [], []⟩

/-- What happens at one end, under the key `k`. -/
inductive Step (k : κ) (p : Port α) : Option (Act κ α) → Port α → Prop
  | detach : Step k p (some (.detach k)) { p with up := false }
  | receive (items : List α) (hup : p.up) :
      Step k p (some (.receive k items)) { p with inbox := p.inbox ++ items }
  | send {items rest : List α} (hup : p.up) (hout : p.outbox = items ++ rest) :
      Step k p (some (.send k items)) { p with outbox := rest }
  /-- what is queued for something detached is lost -/
  | drop {kept lost : List α} (hdown : p.up = false) (hin : p.inbox = kept ++ lost) :
      Step k p none { p with inbox := kept, outbox := [] }

end Port

structure State (κ α : Type*) where
  role : κ → Option Role
  /-- the key of the link, once it has been attached -/
  key : Option κ
  link : Port α
  ports : κ → Port α
  /-- what a port may still be copied of the items relayed last -/
  due : κ → List α

/-- A hub to which nothing has been attached yet. -/
def State.init : State κ α := ⟨fun _ => none, none, .blank, fun _ => .blank, fun _ => []⟩

/-- What can be seen of one end is about its own traffic. -/
theorem Port.Step.apart {k : κ} {p p' : Port α} {a : Option (Act κ α)} (h : p.Step k a p') :
    relayed a.toList = [] ∧ commands a.toList = [] ∧
      ∀ act ∈ a, act.key = some k ∧ ∀ role j, act ≠ .attach role j := by
  cases h with
  | drop => simp [relayed, commands]
  | _ => simp [relayed, commands, Act.key]

variable [DecidableEq κ]

/-- What the hub does. A line is what a port hands to the link at once. -/
inductive Step (IsLine : List α → Prop) (s : State κ α) : Option (Act κ α) → State κ α → Prop
  | link {k : κ} {a : Option (Act κ α)} {p : Port α} (hkey : a.isSome → s.key = some k)
      (hstep : s.link.Step k a p) : Step IsLine s a { s with link := p }
  | port {k : κ} {a : Option (Act κ α)} {p : Port α} (hrole : s.role k = some .port)
      (hstep : (s.ports k).Step k a p) :
      Step IsLine s a { s with ports := Function.update s.ports k p }
  /-- something happens under a key that the hub does not look at -/
  | other {k : κ} {a : Option (Act κ α)} {p p' : Port α} (hrole : a.isSome → s.role k = some .other)
      (hstep : p.Step k a p') : Step IsLine s a s
  /-- the link is attached, again perhaps, and may come up -/
  | plug {k : κ} (up : Bool) (hnew : s.role k = none) (hdown : s.link.up = false) :
      Step IsLine s (some (.attach .link k)) { s with
        role := Function.update s.role k (some .link)
        key := some k
        link := { s.link with up := up } }
  | join {k : κ} (hnew : s.role k = none) :
      Step IsLine s (some (.attach .port k)) { s with
        role := Function.update s.role k (some .port)
        ports := Function.update s.ports k ⟨true, [], []⟩
        due := Function.update s.due k [] }
  | listen {k : κ} (hnew : s.role k = none) :
      Step IsLine s (some (.attach .other k))
        { s with role := Function.update s.role k (some .other) }
  | relay {items rest : List α} (hup : s.link.up) (hin : s.link.inbox = items ++ rest) :
      Step IsLine s (some (.relay items)) { s with
        link := { s.link with inbox := rest }
        due := fun _ => items }
  /-- a port is copied what there is room for, once -/
  | copy {k : κ} {items lost : List α} (hrole : s.role k = some .port)
      (hdue : s.due k = items ++ lost) :
      Step IsLine s (some (.copy k items)) { s with
        ports := Function.update s.ports k
          { s.ports k with outbox := (s.ports k).outbox ++ items }
        due := Function.update s.due k [] }
  /-- a line goes to the link, as far as there is room, and nowhere while the link is down -/
  | command {k : κ} {line rest items lost : List α} (hrole : s.role k = some .port)
      (hin : (s.ports k).inbox = line ++ rest) (hline : IsLine line)
      (hfits : line = items ++ lost) (hdown : s.link.up = false → items = []) :
      Step IsLine s (some (.command k line)) { s with
        link := { s.link with outbox := s.link.outbox ++ items }
        ports := Function.update s.ports k { s.ports k with inbox := rest } }
  /-- everything that is attached is forgotten -/
  | reset : Step IsLine s (some .reset)
      { s with key := none, link := .blank, ports := fun _ => .blank }
  /-- a reset that fails -/
  | crash : Step IsLine s (some .reset) s

/-! ## What passes one end -/

section Port

variable {k : κ} {p p' : Port α} {a : Option (Act κ α)} {keys : List κ}
  {took came gave gone after : List α}

/-- What was taken out and what is still there came in. -/
theorem Port.Step.input (h : p.Step k a p') (hk : a.isSome → k ∈ keys)
    (hin : took ++ p.inbox <+ came) : took ++ p'.inbox <+ came ++ received keys a.toList := by
  cases h with
  | detach | send => simpa [received] using hin
  | receive items =>
    have hitems : received keys [Act.receive k items] = items := by
      simp [received, hk rfl]
    rw [Option.toList_some, hitems, ← List.append_assoc]
    exact hin.append_right items
  | drop _ hlost =>
    rw [hlost, ← List.append_assoc] at hin
    simpa [received] using (List.sublist_append_left _ _).trans hin

/-- What went out and what is still there was put in, and something may be put in after it. -/
theorem Port.Step.output (h : p.Step k a p') (hk : a.isSome → k ∈ keys)
    (hout : gone ++ (p.outbox ++ after) <+ gave) :
    gone ++ sent keys a.toList ++ (p'.outbox ++ after) <+ gave := by
  cases h with
  | detach | receive => simpa [sent] using hout
  | send hup hrest =>
    rename_i items rest
    have hitems : sent keys (some (Act.send k items)).toList = items := by
      simp [sent, hk rfl]
    rwa [hitems, List.append_assoc, ← List.append_assoc items, ← hrest]
  | drop =>
    have hlast : after <+ p.outbox ++ after := List.sublist_append_right _ _
    simpa [sent] using (hlast.append_left gone).trans hout

/-- While an end is up, nothing is lost that came in. -/
theorem Port.Step.whole (h : p.Step k a p') (hin : took ++ p.inbox <+: came)
    (hup : p.up → took ++ p.inbox = came) :
    took ++ p'.inbox <+: came ++ received [k] a.toList ∧
      (p'.up → took ++ p'.inbox = came ++ received [k] a.toList) := by
  cases h with
  | detach => simpa [received] using hin
  | send => simpa [received] using ⟨hin, hup⟩
  | receive items hopen =>
    have hitems : received [k] [Act.receive k items] = items := by
      simp [received]
    rw [Option.toList_some, hitems, ← List.append_assoc, hup hopen]
    exact ⟨List.prefix_refl _, fun _ => rfl⟩
  | drop hdown hlost =>
    rw [hlost, ← List.append_assoc] at hin
    refine ⟨?_, fun hopen => ?_⟩
    · simpa [received] using (List.prefix_append _ _).trans hin
    · simp [hdown] at hopen

end Port

/-! ## The keys -/

section Books

variable {IsLine : List α → Prop} {as : List (Act κ α)} {s s' : State κ α} {a : Option (Act κ α)}

/-- What the hub knows of the keys. -/
structure Named (as : List (Act κ α)) (s : State κ α) : Prop where
  role : ∀ k r, s.role k = some r ↔ .attach r k ∈ as
  acts : ∀ act ∈ as, ∀ k, act.key = some k → s.role k ≠ none
  key : ∀ k, s.key = some k → s.role k = some .link

/-- A step attaches a new key, or is about a key that is attached already. -/
theorem Step.attaches (h : Step IsLine s a s') (hn : Named as s) :
    (∃ r k, a = some (.attach r k) ∧ s.role k = none ∧
      s'.role = Function.update s.role k (some r)) ∨
    (s'.role = s.role ∧ ∀ act ∈ a, (∀ r k, act ≠ .attach r k) ∧
      ∀ k, act.key = some k → s.role k ≠ none) := by
  have hends : ∀ {k : κ} {p p' : Port α}, (a.isSome → s.role k ≠ none) → p.Step k a p' →
      ∀ act ∈ a, (∀ r k, act ≠ .attach r k) ∧ ∀ k, act.key = some k → s.role k ≠ none := by
    intro k p p' hrole hstep act ha
    rcases hstep.apart.2.2 act ha with ⟨hkey, hne⟩
    refine ⟨hne, fun j hj => ?_⟩
    rw [hkey, Option.some.injEq] at hj
    rw [← hj]
    exact hrole (Option.isSome_of_mem ha)
  cases h with
  | link hkey hstep =>
    refine .inr ⟨rfl, hends (fun ha => ?_) hstep⟩
    rw [hn.key _ (hkey ha)]
    exact Option.some_ne_none _
  | port hrole hstep =>
    refine .inr ⟨rfl, hends (fun _ => ?_) hstep⟩
    rw [hrole]
    exact Option.some_ne_none _
  | other hrole hstep =>
    refine .inr ⟨rfl, hends (fun ha => ?_) hstep⟩
    rw [hrole ha]
    exact Option.some_ne_none _
  | plug up hnew => exact .inl ⟨_, _, rfl, hnew, rfl⟩
  | join hnew => exact .inl ⟨_, _, rfl, hnew, rfl⟩
  | listen hnew => exact .inl ⟨_, _, rfl, hnew, rfl⟩
  | relay | reset | crash => exact .inr ⟨rfl, by simp [Act.key]⟩
  | copy hrole | command hrole => exact .inr ⟨rfl, by simp [Act.key, hrole]⟩

/-- The link has the key it was attached under last. -/
theorem Step.link_key (h : Step IsLine s a s')
    (hkey : ∀ k, s.key = some k → s.role k = some .link) :
    ∀ k, s'.key = some k → s'.role k = some .link := by
  cases h with
  | plug =>
    intro k hk
    cases hk
    exact Function.update_self ..
  | join hnew | listen hnew =>
    intro k hk
    have hlink := hkey k hk
    refine (Function.update_of_ne ?_ _ _).trans hlink
    rintro rfl
    rw [hnew] at hlink
    cases hlink
  | reset =>
    intro k hk
    cases hk
  | _ => exact hkey

theorem Named.step (hn : Named as s) (h : Step IsLine s a s') : Named (as ++ a.toList) s' := by
  rcases h.attaches hn with ⟨r, k, rfl, hnew, hrole⟩ | ⟨hrole, hacts⟩
  · constructor
    · intro j r'
      rw [hrole, Option.toList_some, List.mem_append, List.mem_singleton]
      by_cases hjk : j = k
      · subst hjk
        have hnone : ¬ .attach r' j ∈ as := by
          rw [← hn.role, hnew]
          exact fun h => nomatch h
        simp [hnone, eq_comm]
      · simp [hn.role, hjk]
    · intro act hact j hj
      rw [hrole]
      by_cases hjk : j = k
      · simp [hjk]
      · rw [Function.update_of_ne hjk]
        rcases List.mem_append.mp hact with hact | hact
        · exact hn.acts act hact j hj
        · rw [List.mem_singleton.mp hact, Act.key, Option.some.injEq] at hj
          exact absurd hj.symm hjk
    · exact h.link_key hn.key
  · constructor
    · intro k r
      rw [hrole, hn.role, List.mem_append]
      refine ⟨.inl, fun hmem => hmem.resolve_right fun hlast => ?_⟩
      exact (hacts _ (Option.mem_toList.mp hlast)).1 r k rfl
    · intro act hact
      rw [hrole]
      rcases List.mem_append.mp hact with hact | hact
      · exact hn.acts act hact
      · exact (hacts act (Option.mem_toList.mp hact)).2
    · exact h.link_key hn.key

omit [DecidableEq κ] in
/-- A key is attached once. -/
theorem Named.unique (hn : Named as s) {k : κ} {r r' : Role} (h : .attach r k ∈ as)
    (h' : .attach r' k ∈ as) : r = r' := by
  rw [← hn.role] at h h'
  rw [h] at h'
  exact Option.some.inj h'

/-- What has come in under the keys of a role has come in under them after the step too, which may
attach another key. -/
theorem Named.traffic (hn : Named as s) (h : Step IsLine s a s') (r : Role) :
    received (keysOf r (as ++ a.toList)) as = received (keysOf r as) as ∧
      sent (keysOf r (as ++ a.toList)) as = sent (keysOf r as) as := by
  have hsame : ∀ act ∈ as, ∀ k, act.key = some k →
      (k ∈ keysOf r (as ++ a.toList) ↔ k ∈ keysOf r as) := by
    intro act hact k hk
    rw [mem_keysOf, mem_keysOf, List.mem_append]
    refine ⟨fun hmem => ?_, .inl⟩
    rcases hmem with hold | hlast
    · exact hold
    · -- a key that is attached now has not been used before
      exfalso
      rcases h.attaches hn with ⟨r', j, rfl, hnew, -⟩ | ⟨-, hacts⟩
      · cases List.mem_singleton.mp hlast
        exact hn.acts act hact k hk hnew
      · exact (hacts _ (Option.mem_toList.mp hlast)).1 r k rfl
  exact ⟨received_congr hsame, sent_congr hsame⟩

/-! ## The link -/

/-- What was relayed came in on the link, and what went out was handed to it. -/
structure Linked (as : List (Act κ α)) (s : State κ α) : Prop where
  up : relayed as ++ s.link.inbox <+ received (keysOf .link as) as
  down : sent (keysOf .link as) as ++ s.link.outbox <+ (commands as).flatten

/-- Nothing passes the link, and its queues stay. -/
theorem Linked.still (h : Linked as s) (hn : Named as s) (hstep : Step IsLine s a s')
    (hreceived : received (keysOf .link (as ++ a.toList)) a.toList = [])
    (hsent : sent (keysOf .link (as ++ a.toList)) a.toList = []) (hrelayed : relayed a.toList = [])
    (hin : s'.link.inbox = s.link.inbox) (hout : s'.link.outbox = s.link.outbox) :
    Linked (as ++ a.toList) s' := by
  constructor
  · rw [relayed_append, received_append, hreceived, (hn.traffic hstep _).1, hrelayed,
      List.append_nil, List.append_nil, hin]
    exact h.up
  · rw [commands_append, sent_append, hsent, (hn.traffic hstep _).2, hout, List.append_nil,
      List.flatten_append]
    exact h.down.trans (List.sublist_append_left _ _)

/-- Something happens at another end. -/
theorem Linked.apart (h : Linked as s) (hn : Named as s) (hstep : Step IsLine s a s') {k : κ}
    {p p' : Port α} (hend : p.Step k a p') {r : Role} (hrole : a.isSome → s'.role k = some r)
    (hr : r ≠ .link) (hlink : s'.link = s.link) : Linked (as ++ a.toList) s' := by
  have hnot : ∀ act ∈ a.toList, ∀ j, act.key = some j → j ∉ keysOf .link (as ++ a.toList) := by
    intro act hact j hj hmem
    rw [Option.mem_toList] at hact
    rw [(hend.apart.2.2 act hact).1, Option.some.injEq] at hj
    subst hj
    have hn' := hn.step hstep
    have hk := (hn'.role k r).mp (hrole (Option.isSome_of_mem hact))
    exact hr (hn'.unique hk (mem_keysOf.mp hmem))
  refine h.still hn hstep (received_of_not_mem hnot) (sent_of_not_mem hnot) hend.apart.1 ?_ ?_
  · rw [hlink]
  · rw [hlink]

theorem Linked.step (h : Linked as s) (hn : Named as s) (hstep : Step IsLine s a s') :
    Linked (as ++ a.toList) s' := by
  have htraffic := hn.traffic hstep .link
  have hn' := hn.step hstep
  have hstill := h.still hn hstep
  have hapart := fun (k : κ) (p p' : Port α) (hend : p.Step k a p') (r : Role) =>
    h.apart (r := r) hn hstep hend
  cases hstep with
  | link hkey hend =>
    -- the traffic is under the key of the link
    have hmem : a.isSome → _ ∈ keysOf .link (as ++ a.toList) := fun ha =>
      mem_keysOf.mpr ((hn'.role _ _).mp (hn.key _ (hkey ha)))
    constructor
    · rw [relayed_append, hend.apart.1, List.append_nil, received_append, htraffic.1]
      exact hend.input hmem h.up
    · rw [commands_append, hend.apart.2.1, List.append_nil, sent_append, htraffic.2]
      have hdown := h.down
      rw [← List.append_nil s.link.outbox] at hdown
      have hout := hend.output hmem hdown
      rwa [List.append_nil] at hout
  | port hrole hend => exact hapart _ _ _ hend .port (fun _ => hrole) (by simp) rfl
  | other hrole hend => exact hapart _ _ _ hend .other hrole (by simp) rfl
  | plug | join | listen | copy | crash => exact hstill rfl rfl rfl rfl rfl
  | relay hup hin =>
    rename_i items rest
    have hitems : relayed (some (.relay items : Act κ α)).toList = items := by simp [relayed]
    constructor
    · rw [relayed_append, hitems, List.append_assoc, received_append, htraffic.1]
      exact (hin ▸ h.up).trans (List.sublist_append_left _ _)
    · rw [commands_append, sent_append, htraffic.2, List.flatten_append, List.append_assoc]
      exact h.down.trans (List.sublist_append_left _ _)
  | command hrole hin hline hfits hdown =>
    rename_i k line rest items lost
    have hitems : commands (some (.command k line : Act κ α)).toList = [line] := rfl
    constructor
    · rw [relayed_append, received_append, htraffic.1]
      simpa [relayed, received] using h.up
    · -- the part that found room
      have hsent : sent (keysOf .link (as ++ (some (Act.command k line)).toList))
          (some (.command k line : Act κ α)).toList = [] := rfl
      rw [commands_append, hitems, List.flatten_append, List.flatten_singleton, sent_append,
        htraffic.2, hsent, List.append_nil, ← List.append_assoc]
      exact h.down.append (hfits ▸ List.sublist_append_left items lost)
  | reset =>
    constructor
    · rw [relayed_append, received_append, htraffic.1]
      simpa [relayed, received, Port.blank] using (List.sublist_append_left _ _).trans h.up
    · rw [commands_append, sent_append, htraffic.2]
      simpa [commands, sent, Port.blank] using (List.sublist_append_left _ _).trans h.down

/-! ## The ports -/

/-- What went out on a port was relayed since it was attached, and what was handed to the link came
in on it. -/
structure Ported (as : List (Act κ α)) (s : State κ α) (k : κ) : Prop where
  output : sent [k] as ++ ((s.ports k).outbox ++ s.due k) <+ relayed (since k as)
  input : (commandsFrom k as).flatten ++ (s.ports k).inbox <+: received [k] as
  whole : (s.ports k).up → (commandsFrom k as).flatten ++ (s.ports k).inbox = received [k] as

variable {k : κ}

/-- Nothing happens at the port. -/
theorem Ported.still (h : Ported as s k) (hk : .attach .port k ∈ as)
    (hacts : ∀ act ∈ a, ∀ j, act.key = some j → j ≠ k) (hport : s'.ports k = s.ports k)
    (hdue : s'.due k = s.due k) : Ported (as ++ a.toList) s' k := by
  have hnot : ∀ act ∈ a.toList, ∀ j, act.key = some j → j ∉ [k] := by
    intro act hact j hj hmem
    exact hacts act (Option.mem_toList.mp hact) j hj (List.mem_singleton.mp hmem)
  have hsent : sent [k] (as ++ a.toList) = sent [k] as := by
    rw [sent_append, sent_of_not_mem hnot, List.append_nil]
  have hreceived : received [k] (as ++ a.toList) = received [k] as := by
    rw [received_append, received_of_not_mem hnot, List.append_nil]
  have hcommands : commandsFrom k (as ++ a.toList) = commandsFrom k as := by
    rw [commandsFrom_append, commandsFrom_of_not_mem hnot, List.append_nil]
  constructor
  · rw [hsent, hport, hdue, since_append_of_mem hk, relayed_append]
    exact h.output.trans (List.sublist_append_left _ _)
  · rw [hcommands, hreceived, hport]
    exact h.input
  · rw [hcommands, hreceived, hport]
    exact h.whole

/-- Something happens at the port. -/
theorem Ported.moved (h : Ported as s k) (hk : .attach .port k ∈ as)
    (hend : (s.ports k).Step k a (s'.ports k)) (hdue : s'.due k = s.due k) :
    Ported (as ++ a.toList) s' k := by
  have hcommands : commandsFrom k a.toList = [] := by
    generalize s'.ports k = p at hend
    cases hend <;> rfl
  rcases hend.whole h.input h.whole with ⟨hin, hwhole⟩
  constructor
  · rw [sent_append, since_append_of_mem hk, relayed_append, hend.apart.1, List.append_nil, hdue]
    exact hend.output (fun _ => List.mem_singleton_self k) h.output
  · rw [commandsFrom_append, hcommands, List.append_nil, received_append]
    exact hin
  · rw [commandsFrom_append, hcommands, List.append_nil, received_append]
    exact hwhole

/-- The port is attached: nothing has been done under its key. -/
theorem Ported.join (hn : Named as s) (hnew : s.role k = none) (hport : s'.ports k = ⟨true, [], []⟩)
    (hdue : s'.due k = []) : Ported (as ++ [.attach .port k]) s' k := by
  have hnot : ∀ act ∈ as, ∀ j, act.key = some j → j ∉ [k] := by
    intro act hact j hj hmem
    rw [List.mem_singleton] at hmem
    subst hmem
    exact hn.acts act hact j hj hnew
  have hreceived : received [k] (as ++ [.attach .port k]) = [] := by
    rw [received_append, received_of_not_mem hnot]
    rfl
  have hcommands : commandsFrom k (as ++ [.attach .port k]) = [] := by
    rw [commandsFrom_append, commandsFrom_of_not_mem hnot]
    rfl
  constructor
  · rw [sent_append, sent_of_not_mem hnot, hport, hdue]
    exact List.nil_sublist _
  · rw [hcommands, hreceived, hport]
    exact List.prefix_refl _
  · rw [hcommands, hreceived, hport]
    exact fun _ => rfl

theorem Ported.step (h : Ported as s k) (hn : Named as s) (hk : .attach .port k ∈ as)
    (hstep : Step IsLine s a s') : Ported (as ++ a.toList) s' k := by
  have hrole := (hn.role k .port).mpr hk
  have hne : ∀ {j : κ} {r : Option Role}, s.role j = r → r ≠ some .port → k ≠ j := by
    rintro j r hj hr rfl
    exact hr (hj.symm.trans hrole)
  have hends : ∀ {j : κ} {p p' : Port α}, p.Step j a p' → (a.isSome → k ≠ j) →
      ∀ act ∈ a, ∀ i, act.key = some i → i ≠ k := by
    rintro j p p' hend hj act hact i hi rfl
    rw [(hend.apart.2.2 act hact).1, Option.some.injEq] at hi
    exact hj (Option.isSome_of_mem hact) hi.symm
  have hstill : (∀ act ∈ a, ∀ j, act.key = some j → j ≠ k) → s'.ports k = s.ports k →
      s'.due k = s.due k → Ported (as ++ a.toList) s' k := h.still hk
  cases hstep with
  | link hkey hend =>
    exact hstill (hends hend fun ha => hne (hn.key _ (hkey ha)) (by simp)) rfl rfl
  | port hj hend =>
    rename_i j p
    by_cases hjk : j = k
    · subst hjk
      refine h.moved hk ?_ rfl
      show (s.ports j).Step j a (Function.update s.ports j p j)
      rwa [Function.update_self]
    · exact hstill (hends hend fun _ => Ne.symm hjk) (Function.update_of_ne (Ne.symm hjk) ..) rfl
  | other hother hend =>
    exact hstill (hends hend fun ha => hne (hother ha) (by simp)) rfl rfl
  | plug up hnew | listen hnew =>
    have hkj := hne hnew (by simp)
    exact hstill (by simpa [Act.key] using hkj.symm) rfl rfl
  | join hnew =>
    have hkj := hne hnew (by simp)
    exact hstill (by simpa [Act.key] using hkj.symm) (Function.update_of_ne hkj ..)
      (Function.update_of_ne hkj ..)
  | relay hup hin =>
    -- the chunk before this one is not due any more
    rename_i items rest
    have hitems : relayed (some (.relay items : Act κ α)).toList = items := by simp [relayed]
    constructor
    · rw [since_append_of_mem hk, relayed_append, hitems, sent_append, ← List.append_assoc]
      have hout := h.output
      rw [← List.append_assoc] at hout
      simpa [sent] using ((List.sublist_append_left _ _).trans hout).append_right items
    · simpa [commandsFrom, received] using h.input
    · simpa [commandsFrom, received] using h.whole
  | copy hj hdue =>
    rename_i j items lost
    by_cases hjk : j = k
    · subst hjk
      constructor
      · have hout := h.output
        rw [hdue, ← List.append_assoc, ← List.append_assoc] at hout
        rw [since_append_of_mem hk, relayed_append]
        simpa [sent, relayed] using (List.sublist_append_left _ _).trans hout
      · simpa [commandsFrom, received] using h.input
      · simpa [commandsFrom, received] using h.whole
    · exact hstill (by simpa [Act.key] using hjk) (Function.update_of_ne (Ne.symm hjk) ..)
        (Function.update_of_ne (Ne.symm hjk) ..)
  | command hj hin hline hfits hdown =>
    rename_i j line rest items lost
    by_cases hjk : j = k
    · subst hjk
      have hcommands : commandsFrom j (some (.command j line : Act κ α)).toList = [line] := by
        simp [commandsFrom]
      constructor
      · rw [since_append_of_mem hk, relayed_append]
        simpa [sent, relayed] using h.output
      · have hinput := h.input
        rw [hin, ← List.append_assoc] at hinput
        rw [commandsFrom_append, hcommands, List.flatten_append, List.flatten_singleton]
        simpa [received] using hinput
      · have hwhole := h.whole
        rw [hin, ← List.append_assoc] at hwhole
        rw [commandsFrom_append, hcommands, List.flatten_append, List.flatten_singleton]
        simpa [received] using hwhole
    · exact hstill (by simpa [Act.key] using hjk) (Function.update_of_ne (Ne.symm hjk) ..) rfl
  | reset =>
    constructor
    · have hlast : s.due k <+ (s.ports k).outbox ++ s.due k := List.sublist_append_right _ _
      rw [since_append_of_mem hk, relayed_append]
      simpa [sent, relayed, Port.blank] using (hlast.append_left _).trans h.output
    · simpa [commandsFrom, received, Port.blank] using (List.prefix_append _ _).trans h.input
    · simp [Port.blank]
  | crash => exact hstill (by simp [Act.key]) rfl rfl

/-! ## The books -/

/-- Nothing that the hub passes on is invented, repeated or put out of order. -/
structure Books (IsLine : List α → Prop) (as : List (Act κ α)) (s : State κ α) : Prop where
  named : Named as s
  linked : Linked as s
  ported : ∀ k, .attach .port k ∈ as → Ported as s k
  commands : ∀ k line, .command k line ∈ as → .attach .port k ∈ as ∧ IsLine line

theorem Books.step (h : Books IsLine as s) (hstep : Step IsLine s a s') :
    Books IsLine (as ++ a.toList) s' := by
  constructor
  · exact h.named.step hstep
  · exact h.linked.step h.named hstep
  · intro k hk
    rcases List.mem_append.mp hk with hk | hlast
    · exact (h.ported k hk).step h.named hk hstep
    · -- the port is attached now
      rw [Option.mem_toList] at hlast
      subst hlast
      cases hstep with
      | link _ hend | port _ hend | other _ hend =>
        exact absurd rfl ((hend.apart.2.2 _ rfl).2 .port k)
      | join hnew =>
        exact Ported.join h.named hnew (Function.update_self ..) (Function.update_self ..)
  · intro k line hmem
    rcases List.mem_append.mp hmem with hmem | hlast
    · rcases h.commands k line hmem with ⟨hk, hline⟩
      exact ⟨List.mem_append_left _ hk, hline⟩
    · rw [Option.mem_toList] at hlast
      subst hlast
      have hends : ∀ {j : κ} {p p' : Port α}, ¬ p.Step j (some (.command k line)) p' := by
        intro j p p' hend
        cases hend
      cases hstep with
      | link _ hend | port _ hend | other _ hend => exact absurd hend hends
      | command hrole _ hline =>
        exact ⟨List.mem_append_left _ ((h.named.role k .port).mp hrole), hline⟩

/-- The books are right at the end of every trace of the hub. -/
theorem Trace.books (h : Trace (Step IsLine) State.init as s) : Books IsLine as s := by
  refine h.invariant (Books IsLine) ?_ fun hbooks hstep => hbooks.step hstep
  constructor
  · exact ⟨by simp [State.init], by simp, by simp [State.init]⟩
  · exact ⟨List.nil_sublist _, List.nil_sublist _⟩
  · simp
  · simp

end Books

end Hub
