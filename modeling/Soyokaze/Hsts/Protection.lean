import Soyokaze.Hsts
import Soyokaze.Lib.Course

/-!
# Who is protected

Fields are learned from responses of any hosts, hosts are asked about, what has expired is
dropped, and the map may come to be gone through in any order.

* `HSTSStore.Known`: what a store holds of a host is what was last learned of it;
* `HSTSStore.protection_kept`: so a host is protected as long as it last asked to be, or one
  it is under did for all that are, where the clock can hold when the policies expire.
-/

namespace Soyokaze

namespace HSTSStore

/-- What is done with a store. -/
inductive Move
  | learn (host header : Octets) (secure : Bool) (now : Instant)
  | ask (host : Octets) (now : Instant)
  | prune (now : Instant)
  /-- The map comes to be gone through in another order. -/
  | aside (change : HashMap Octets (Instant × Bool) → HashMap Octets (Instant × Bool))
      (perm : ∀ m : HashMap Octets (Instant × Bool), m.entries.Perm (change m).entries)

/-- When it is done. -/
def Move.time : Move → Option Instant
  | .learn _ _ _ now | .ask _ now | .prune now => some now
  | .aside .. => none

/-- The policy that is learned, of which host, and when. -/
def Move.learned : Move → Option (Octets × Instant × HSTSPolicy)
  | .learn host header true now => (normalize host).bind fun name => (HSTSPolicy.parse header).map fun policy => (name, now, policy)
  | .learn _ _ false _ | .ask .. | .prune _ | .aside .. => none

/-- What is done with a store, and whether a host that is asked about is protected. -/
def moves : Moves HSTSStore Empty Bool Move where
  step
    | .learn host header secure now => fun store => (.ok false, store.learn host header secure now)
    | .ask host now => fun store => (.ok (store.secure host now).1, (store.secure host now).2)
    | .prune now => fun store => (.ok false, store.prune now)
    | .aside change _ => fun store => (.ok false, { store with entries := change store.entries })
  ends := fun _ => False
  left := fun _ => True

/-- When something was done, the latest first. -/
def times (h : List (Turn HSTSStore Empty Bool Move)) : List Instant := h.filterMap fun t => t.move.time

/-- The policy last learned of a host, and when. -/
def latest (name : Octets) : List (Turn HSTSStore Empty Bool Move) → Option (Instant × HSTSPolicy)
  | [] => none
  | t :: earlier => match t.move.learned with
    | some (who, learned) => if who = name then some learned else latest name earlier
    | none => latest name earlier

/-- Whether a policy that was learned at a time has not expired. -/
def Unexpired (now : Instant) (learned : Instant × HSTSPolicy) : Prop := now.nanos < learned.1.after learned.2.maxAge.toNat

instance (now : Instant) (learned : Instant × HSTSPolicy) : Decidable (Unexpired now learned) :=
  inferInstanceAs (Decidable (now.nanos < learned.1.after learned.2.maxAge.toNat))

/-- Whether a host last asked to be protected, or one it is under last asked it for all that are. -/
def Protected (h : List (Turn HSTSStore Empty Bool Move)) (name : Octets) (now : Instant) : Prop :=
  (∃ learned, latest name h = some learned ∧ Unexpired now learned) ∨
  ∃ before parent, name = before ++ 0x2e :: parent ∧
    ∃ learned, latest parent h = some learned ∧ Unexpired now learned ∧ learned.2.includeSubdomains = true

/-- Whether a host that has not expired was dropped to make room for another. -/
def Evicts (t : Turn HSTSStore Empty Bool Move) : Prop := ∃ host header secure now, t.move = .learn host header secure now ∧
  ∃ name entry, t.before.entries.lookup name = some entry ∧ now < entry.1 ∧ normalize host ≠ some name ∧
    t.after.entries.lookup name = none

/-- Whether the clock can hold when the policy that is learned expires. -/
def Holds (move : Move) : Prop := ∀ name now policy, move.learned = some (name, now, policy) →
  0 < policy.maxAge → (now.checkedAdd policy.maxAge.toNat).isSome = true

/-! ## One host -/

/-- What is held of a host, by what was last learned of it. -/
structure Known (times : List Instant) (entry : Option (Instant × Bool)) (learned : Option (Instant × HSTSPolicy)) : Prop where
  held : ∀ expiry includeSubdomains, entry = some (expiry, includeSubdomains) → ∃ at' policy,
    learned = some (at', policy) ∧ 0 < policy.maxAge ∧ expiry.nanos = at'.after policy.maxAge.toNat ∧
      includeSubdomains = policy.includeSubdomains
  expired : entry = none → ∀ at' policy, learned = some (at', policy) →
    ∃ now ∈ times, at'.after policy.maxAge.toNat ≤ now.nanos

variable {store : HSTSStore} {h : List (Turn HSTSStore Empty Bool Move)} {name : Octets} {now : Instant}
  {times' : List Instant} {entry : Option (Instant × Bool)} {learned : Option (Instant × HSTSPolicy)}

namespace Known

theorem mono {later : List Instant} (hknown : Known times' entry learned) (hsub : times' ⊆ later) :
    Known later entry learned where
  held := hknown.held
  expired := fun hnone at' policy hlearned => (hknown.expired hnone at' policy hlearned).imp fun _ hnow => ⟨hsub hnow.1, hnow.2⟩

/-- What has expired may be dropped. -/
theorem drop {expiry : Instant} {includeSubdomains : Bool} (hknown : Known times' (some (expiry, includeSubdomains)) learned)
    (hnow : now ∈ times') (hexpired : expiry ≤ now) : Known times' none learned where
  held := fun _ _ hentry => by cases hentry
  expired := fun _ at' policy hlearned => by
    obtain ⟨at'', policy', hlearned', -, hexpiry, -⟩ := hknown.held expiry includeSubdomains rfl
    rw [hlearned] at hlearned'
    cases hlearned'
    exact ⟨now, hnow, hexpiry ▸ hexpired⟩

/-- So may all that has. -/
theorem filter_live (hknown : Known times' entry learned) (name : Octets) (hnow : now ∈ times') :
    Known times' (entry.filter (live now name)) learned := by
  cases entry with
  | none => exact hknown
  | some entry =>
    rw [Option.filter_some]
    split_ifs with hlive
    · exact hknown
    · exact hknown.drop hnow (not_lt.1 fun hlt => hlive (decide_eq_true hlt))

/-- Whether a host has not expired can be told by what is held of it. -/
theorem unexpired_iff (hknown : Known times' entry learned) (hle : ∀ at' ∈ times', at' ≤ now) (q : Bool → Prop) :
    (∃ policy, learned = some policy ∧ Unexpired now policy ∧ q policy.2.includeSubdomains) ↔
      ∃ held, entry = some held ∧ now < held.1 ∧ q held.2 := by
  constructor
  · rintro ⟨⟨at', policy⟩, rfl, hunexpired, hq⟩
    cases entry with
    | none =>
      obtain ⟨past, hpast, hexpired⟩ := hknown.expired rfl at' policy rfl
      exact absurd (hexpired.trans (hle past hpast)) (not_le.2 hunexpired)
    | some held =>
      obtain ⟨at'', policy', heq, -, hexpiry, hinclude⟩ := hknown.held held.1 held.2 rfl
      cases heq
      exact ⟨held, rfl, (lt_of_lt_of_eq hunexpired hexpiry.symm :), hinclude ▸ hq⟩
  · rintro ⟨⟨expiry, includeSubdomains⟩, rfl, hlive, hq⟩
    obtain ⟨at', policy, rfl, -, hexpiry, rfl⟩ := hknown.held expiry includeSubdomains rfl
    exact ⟨(at', policy), rfl, lt_of_lt_of_eq hlive hexpiry, hq⟩

end Known

/-! ## One move -/

/-- What is known of every host. -/
def Knows (h : List (Turn HSTSStore Empty Bool Move)) (store : HSTSStore) : Prop :=
  ∀ name, Known (times h) (store.entries.lookup name) (latest name h)

/-- A field that is not to be acted on changes nothing, a policy that is withdrawn is forgotten, and any other is
    stored if the clock can hold when it expires. -/
theorem learn_cases (store : HSTSStore) (host header : Octets) (secure : Bool) (now : Instant) :
    ((Move.learn host header secure now).learned = none ∧ store.learn host header secure now = store) ∨
    ∃ name policy, (Move.learn host header secure now).learned = some (name, now, policy) ∧ normalize host = some name ∧
      ((policy.maxAge = 0 ∧ store.learn host header secure now = { store with entries := store.entries.erase name }) ∨
      (0 < policy.maxAge ∧ now.checkedAdd policy.maxAge.toNat = none ∧ store.learn host header secure now = store) ∨
      (0 < policy.maxAge ∧ ∃ expiry, now.checkedAdd policy.maxAge.toNat = some expiry ∧
        store.learn host header secure now =
          { store with entries := ((evict (store.entries.retain (live now)) name store.maxHstsEntries).insert name
              (expiry, policy.includeSubdomains)) })) := by
  cases secure with
  | false => exact .inl ⟨rfl, rfl⟩
  | true =>
    rw [learn, Move.learned]
    cases hname : normalize host with
    | none => exact .inl ⟨rfl, rfl⟩
    | some name =>
      cases hpolicy : HSTSPolicy.parse header with
      | none => exact .inl ⟨rfl, rfl⟩
      | some policy =>
        have hnonneg := HSTSPolicy.nonneg_of_parse hpolicy
        refine .inr ⟨name, policy, rfl, rfl, ?_⟩
        simp only [Bool.not_true, Bool.false_eq_true, if_false]
        split_ifs with hzero
        · exact .inl ⟨le_antisymm hzero hnonneg, rfl⟩
        · cases hexpiry : now.checkedAdd policy.maxAge.toNat with
          | none => exact .inr (.inl ⟨not_le.1 hzero, rfl, rfl⟩)
          | some expiry => exact .inr (.inr ⟨not_le.1 hzero, expiry, rfl, rfl⟩)

theorem latest_of_learned {t : Turn HSTSStore Empty Bool Move} {who : Octets} {learned : Instant × HSTSPolicy}
    (hlearned : t.move.learned = some (who, learned)) (name : Octets) :
    latest name (t :: h) = if who = name then some learned else latest name h := by
  rw [latest, hlearned]

theorem latest_of_not_learned {t : Turn HSTSStore Empty Bool Move} (hlearned : t.move.learned = none) (name : Octets) :
    latest name (t :: h) = latest name h := by
  rw [latest, hlearned]

theorem knows_learn {host header : Octets} {secure : Bool} (hknows : Knows h store)
    (hroom : ¬Evicts ⟨.learn host header secure now, store, .ok false, store.learn host header secure now⟩)
    (hholds : Holds (.learn host header secure now)) :
    Knows (⟨.learn host header secure now, store, .ok false, store.learn host header secure now⟩ :: h)
      (store.learn host header secure now) := by
  intro other
  have hlater : Known (now :: times h) (store.entries.lookup other) (latest other h) :=
    (hknows other).mono (List.subset_cons_self _ _)
  obtain ⟨hnone, hsame⟩ | ⟨name, policy, hlearned, hname, hcases⟩ := store.learn_cases host header secure now
  · rw [hsame, latest_of_not_learned hnone]
    exact hlater
  · rw [latest_of_learned hlearned]
    obtain ⟨hzero, hrun⟩ | ⟨hpos, hnone, -⟩ | ⟨hpos, expiry, hexpiry, hrun⟩ := hcases
    · rw [hrun]
      dsimp only
      by_cases heq : name = other
      · rw [if_pos heq, heq, AList.lookup_erase]
        refine ⟨fun _ _ hentry => (by cases hentry), fun _ at' policy' hsome => ?_⟩
        obtain ⟨rfl, rfl⟩ := Prod.mk.inj (Option.some.inj hsome)
        refine ⟨now, List.mem_cons_self, le_of_eq ?_⟩
        simp [hzero, Instant.after]
      · rw [if_neg heq, AList.lookup_erase_ne (Ne.symm heq)]
        exact hlater
    · have hsome := hholds name now policy hlearned hpos
      rw [hnone] at hsome
      cases hsome
    · rw [hrun]
      dsimp only
      by_cases heq : name = other
      · rw [if_pos heq, heq, AList.lookup_insert]
        refine ⟨fun expiry' _ hentry => ?_, fun hentry => (by cases hentry)⟩
        obtain ⟨rfl, rfl⟩ := Prod.mk.inj (Option.some.inj hentry)
        exact ⟨now, policy, rfl, hpos, Instant.checkedAdd_eq_some hexpiry, rfl⟩
      · have hfiltered := hlater.filter_live other List.mem_cons_self
        rw [if_neg heq, AList.lookup_insert_ne (Ne.symm heq)]
        obtain hkept | hgone := lookup_evict (store.entries.retain (live now)) name store.maxHstsEntries other
        · rw [hkept, lookup_retain_live]
          exact hfiltered
        · -- Nothing that has not expired was dropped.
          have hdropped : (store.entries.lookup other).filter (live now other) = none := by
            by_contra hheld
            obtain ⟨entry, hentry⟩ := Option.ne_none_iff_exists'.1 hheld
            obtain ⟨hentry, hlive⟩ := Option.filter_eq_some_iff.1 hentry
            refine hroom ⟨host, header, secure, now, rfl, other, entry, hentry, of_decide_eq_true hlive, ?_, ?_⟩
            · rw [hname]
              exact fun hsame => heq (Option.some.inj hsame)
            · rw [hrun]
              dsimp only
              rw [AList.lookup_insert_ne (Ne.symm heq), hgone]
          rw [hgone, ← hdropped]
          exact hfiltered

theorem knows_ask {host : Octets} (hknows : Knows h store) :
    Knows (⟨.ask host now, store, .ok (store.secure host now).1, (store.secure host now).2⟩ :: h) (store.secure host now).2 := by
  intro other
  have hlater : Known (now :: times h) (store.entries.lookup other) (latest other h) :=
    (hknows other).mono (List.subset_cons_self _ _)
  rw [latest_of_not_learned rfl, secure]
  cases normalize host with
  | none => exact hlater
  | some name =>
    dsimp only
    obtain hsame | ⟨hnone, ⟨expiry, includeSubdomains⟩, hentry, hexpired⟩ :=
      lookup_secureLoop name now (candidates name) store.entries other
    · rw [hsame]
      exact hlater
    · rw [hentry] at hlater
      rw [hnone]
      exact hlater.drop List.mem_cons_self hexpired

theorem knows_prune (hknows : Knows h store) : Knows (⟨.prune now, store, .ok false, store.prune now⟩ :: h) (store.prune now) := by
  intro other
  have hlater : Known (now :: times h) (store.entries.lookup other) (latest other h) :=
    (hknows other).mono (List.subset_cons_self _ _)
  rw [latest_of_not_learned rfl, prune, lookup_retain_live]
  exact hlater.filter_live other List.mem_cons_self

variable {most : UInt32}

/-- What is held of every host is what was last learned of it, where nothing was dropped to make room. -/
theorem knows_of_course (hcourse : Course moves (new most) h store) (hroom : ∀ t ∈ h, ¬Evicts t) (hholds : ∀ t ∈ h, Holds t.move) :
    Knows h store := by
  induction hcourse with
  | begun => exact fun _ => ⟨fun _ _ hentry => (by cases hentry), fun _ _ _ hlearned => (by cases hlearned)⟩
  | @turn h store store' move outcome _ _ htook ih =>
    have hknows := ih (fun t ht => hroom t (List.mem_cons_of_mem _ ht)) fun t ht => hholds t (List.mem_cons_of_mem _ ht)
    have hhere := hroom _ List.mem_cons_self
    cases move with
    | learn host header secure now =>
      obtain ⟨rfl, rfl⟩ := Prod.mk.inj htook
      exact knows_learn hknows hhere (hholds _ List.mem_cons_self)
    | ask host now =>
      obtain ⟨rfl, rfl⟩ := Prod.mk.inj htook
      exact knows_ask hknows
    | prune now =>
      obtain ⟨rfl, rfl⟩ := Prod.mk.inj htook
      exact knows_prune hknows
    | aside change perm =>
      obtain ⟨rfl, rfl⟩ := Prod.mk.inj htook
      intro name
      rw [latest_of_not_learned rfl, ← HashMap.lookup_of_perm (perm store.entries)]
      exact hknows name

/-- No more hosts are held than may be. -/
theorem size_of_course (hcourse : Course moves (new most) h store) (hmost : most ≠ 0) :
    store.entries.size ≤ most.toNat ∧ store.maxHstsEntries = most := by
  induction hcourse with
  | begun => exact ⟨Nat.zero_le _, rfl⟩
  | @turn h store store' move outcome _ _ htook ih =>
    obtain ⟨hsize, hsame⟩ := ih
    cases move with
    | learn host header secure now =>
      obtain ⟨rfl, rfl⟩ := Prod.mk.inj htook
      obtain ⟨-, hrun⟩ | ⟨name, policy, -, -, ⟨-, hrun⟩ | ⟨-, -, hrun⟩ | ⟨-, expiry, -, hrun⟩⟩ :=
        store.learn_cases host header secure now <;> rw [hrun]
      · exact ⟨hsize, hsame⟩
      · exact ⟨(HashMap.size_erase_le store.entries name).trans hsize, hsame⟩
      · exact ⟨hsize, hsame⟩
      · refine ⟨?_, hsame⟩
        rw [hsame]
        exact size_insert_evict hmost ((HashMap.size_filterMap_le store.entries _).trans hsize) _
    | ask host now =>
      obtain ⟨rfl, rfl⟩ := Prod.mk.inj htook
      rw [secure]
      cases normalize host with
      | none => exact ⟨hsize, hsame⟩
      | some name => exact ⟨(size_secureLoop_le name now (candidates name) store.entries).trans hsize, hsame⟩
    | prune now =>
      obtain ⟨rfl, rfl⟩ := Prod.mk.inj htook
      exact ⟨(HashMap.size_filterMap_le store.entries _).trans hsize, hsame⟩
    | aside change perm =>
      obtain ⟨rfl, rfl⟩ := Prod.mk.inj htook
      exact ⟨(perm store.entries).length_eq.symm.le.trans hsize, hsame⟩

/-- A host is protected, by what is held, just as it last asked to be, or one it is under did for all that are. -/
theorem Knows.secure_iff {host : Octets} (hknows : Knows h store) (hle : ∀ at' ∈ times h, at' ≤ now) :
    (store.secure host now).1 = true ↔ ∃ name, normalize host = some name ∧ Protected h name now := by
  rw [secure]
  cases normalize host with
  | none => simp
  | some name =>
    simp only [Option.some_inj, exists_eq_left']
    rw [secureLoop_eq_true_iff, Protected]
    have hself := (hknows name).unexpired_iff hle fun _ => True
    simp only [and_true] at hself
    have hparent (parent : Octets) := (hknows parent).unexpired_iff hle fun covers => covers = true
    simp only [candidates, List.mem_cons, exists_eq_or_imp, Str.mem_behindEach, true_or, and_true]
    rw [hself]
    refine or_congr_right ⟨?_, ?_⟩
    · rintro ⟨parent, ⟨before, hname⟩, entry, hentry, hlive, hcovers⟩
      -- A name is longer than those it is under.
      have hother : parent ≠ name := by
        rintro rfl
        have hlength := congrArg List.length hname
        rw [List.length_append, List.length_cons] at hlength
        omega
      exact ⟨before, parent, hname, (hparent parent).2 ⟨entry, hentry, hlive, hcovers.resolve_left hother⟩⟩
    · rintro ⟨before, parent, hname, hcovered⟩
      obtain ⟨entry, hentry, hlive, hcovers⟩ := (hparent parent).1 hcovered
      exact ⟨parent, ⟨before, hname⟩, entry, hentry, hlive, .inr hcovers⟩

/-- A policy that was withdrawn protects nobody. -/
theorem Knows.withdrawn {at' : Instant} {policy : HSTSPolicy} (hknows : Knows h store)
    (hlatest : latest name h = some (at', policy)) (hzero : policy.maxAge = 0) : store.entries.lookup name = none := by
  cases hentry : store.entries.lookup name with
  | none => rfl
  | some entry =>
    obtain ⟨at'', policy', heq, hpos, -⟩ := (hknows name).held entry.1 entry.2 hentry
    rw [hlatest] at heq
    cases heq
    exact absurd hzero hpos.ne'

/-- Where of two policies one lasts longer and is alike otherwise, it protects as long as the other. -/
theorem Protected.longer {t t' : Turn HSTSStore Empty Bool Move} {who : Octets} {at' : Instant} {policy policy' : HSTSPolicy}
    (hlearned : t.move.learned = some (who, at', policy)) (hlearned' : t'.move.learned = some (who, at', policy'))
    (hlonger : policy.maxAge ≤ policy'.maxAge) (hcovers : policy.includeSubdomains = policy'.includeSubdomains)
    (hprotected : Protected (t :: h) name now) : Protected (t' :: h) name now := by
  have hone {other : Octets} (q : Bool → Prop) (hsome : ∃ learned, latest other (t :: h) = some learned ∧
      Unexpired now learned ∧ q learned.2.includeSubdomains) : ∃ learned, latest other (t' :: h) = some learned ∧
      Unexpired now learned ∧ q learned.2.includeSubdomains := by
    rw [latest_of_learned hlearned] at hsome
    rw [latest_of_learned hlearned']
    by_cases heq : who = other
    · rw [if_pos heq] at hsome ⊢
      obtain ⟨learned, hsame, hunexpired, hq⟩ := hsome
      cases hsame
      exact ⟨_, rfl, lt_of_lt_of_le hunexpired (Instant.after_mono (Int.toNat_le_toNat hlonger)), hcovers ▸ hq⟩
    · rw [if_neg heq] at hsome ⊢
      exact hsome
  refine hprotected.imp (fun ⟨learned, hsame, hunexpired⟩ => ?_) fun ⟨before, parent, hname, hparent⟩ =>
    ⟨before, parent, hname, hone (· = true) hparent⟩
  obtain ⟨learned', hsame', hunexpired', -⟩ := hone (fun _ => True) ⟨learned, hsame, hunexpired, trivial⟩
  exact ⟨learned', hsame', hunexpired'⟩

/-- What learning a field makes of a store. -/
def learning (store : HSTSStore) (host header : Octets) (now : Instant) : Turn HSTSStore Empty Bool Move :=
  ⟨.learn host header true now, store, .ok false, store.learn host header true now⟩

/-- A longer policy protects as long as a shorter one that is learned in its place. -/
theorem Knows.longer {host header header' : Octets} {policy policy' : HSTSPolicy} (hknows : Knows h store)
    (hparse : HSTSPolicy.parse header = some policy) (hparse' : HSTSPolicy.parse header' = some policy')
    (hlonger : policy.maxAge ≤ policy'.maxAge) (hcovers : policy.includeSubdomains = policy'.includeSubdomains)
    (hroom : ¬Evicts (learning store host header now)) (hroom' : ¬Evicts (learning store host header' now))
    (hholds : Holds (.learn host header' true now)) (hle : ∀ at' ∈ times h, at' ≤ now)
    {asked : Octets} {later : Instant} (hlater : now ≤ later)
    (hsecure : ((store.learn host header true now).secure asked later).1 = true) :
    ((store.learn host header' true now).secure asked later).1 = true := by
  cases hname : normalize host with
  | none =>
    have hsame (header : Octets) : store.learn host header true now = store := by
      rw [learn, hname]
      rfl
    rw [hsame] at hsecure ⊢
    exact hsecure
  | some name =>
    have hlearned : (Move.learn host header true now).learned = some (name, now, policy) := by
      rw [Move.learned, hname, hparse]
      rfl
    have hlearned' : (Move.learn host header' true now).learned = some (name, now, policy') := by
      rw [Move.learned, hname, hparse']
      rfl
    have hholds₀ : Holds (.learn host header true now) := by
      intro name₀ now₀ policy₀ hsome hpos
      rw [hlearned] at hsome
      cases hsome
      exact Instant.checkedAdd_isSome_mono (Int.toNat_le_toNat hlonger)
        (hholds name now policy' hlearned' (hpos.trans_le hlonger))
    have hpast {h' : List Instant} (htimes : h' = now :: times h) : ∀ at' ∈ h', at' ≤ later := by
      rw [htimes]
      exact List.forall_mem_cons.2 ⟨hlater, fun at' hat => (hle at' hat).trans hlater⟩
    obtain ⟨askedName, hasked, hprotected⟩ := ((knows_learn hknows hroom hholds₀).secure_iff (hpast rfl)).1 hsecure
    exact ((knows_learn hknows hroom' hholds).secure_iff (hpast rfl)).2
      ⟨askedName, hasked, hprotected.longer hlearned hlearned' hlonger hcovers⟩

/-- Whatever is done with a store, it holds no more hosts than it may, unless it may hold none. Where nothing was
    dropped to make room, and the clock can hold when each policy that was learned expires, a host is protected just as
    it last asked to be, or a name it is under did for all that are; a policy that was withdrawn is forgotten; and a
    longer policy protects as long as a shorter one would have. -/
theorem protection_kept (hcourse : Course moves (new most) h store) :
    (most ≠ 0 → store.entries.size ≤ most.toNat) ∧
    ((∀ t ∈ h, ¬Evicts t) → (∀ t ∈ h, Holds t.move) →
      (∀ host now, (∀ at' ∈ times h, at' ≤ now) →
        ((store.secure host now).1 = true ↔ ∃ name, normalize host = some name ∧ Protected h name now)) ∧
      (∀ name at' policy, latest name h = some (at', policy) → policy.maxAge = 0 → store.entries.lookup name = none) ∧
      ∀ host header header' policy policy' now, HSTSPolicy.parse header = some policy →
        HSTSPolicy.parse header' = some policy' → policy.maxAge ≤ policy'.maxAge →
        policy.includeSubdomains = policy'.includeSubdomains → ¬Evicts (learning store host header now) →
        ¬Evicts (learning store host header' now) → Holds (.learn host header' true now) →
        (∀ at' ∈ times h, at' ≤ now) → ∀ asked later, now ≤ later →
          ((store.learn host header true now).secure asked later).1 = true →
          ((store.learn host header' true now).secure asked later).1 = true) := by
  refine ⟨fun hmost => (size_of_course hcourse hmost).1, fun hroom hholds => ?_⟩
  have hknows := knows_of_course hcourse hroom hholds
  refine ⟨fun host now hle => hknows.secure_iff hle, fun name at' policy => hknows.withdrawn, ?_⟩
  intro host header header' policy policy' now hparse hparse' hlonger hcovers hroom₀ hroom' hholds' hle asked later hlater
  exact hknows.longer hparse hparse' hlonger hcovers hroom₀ hroom' hholds' hle hlater

theorem holds_of_learned {move : Move} {policy : HSTSPolicy} (hlearned : move.learned = some (name, now, policy))
    (hsome : (now.checkedAdd policy.maxAge.toNat).isSome = true) : Holds move := by
  intro name' now' policy' hlearned' _
  rw [hlearned] at hlearned'
  cases hlearned'
  exact hsome

/-- A store that holds nothing has nothing to drop. -/
theorem not_evicts_new (most : UInt32) (host header : Octets) (now : Instant) : ¬Evicts (learning (new most) host header now) := by
  rintro ⟨_, _, _, _, -, name, entry, hentry, -⟩
  cases hentry

theorem protection_kept_minute :
    (((new 4096).learn (lit "Example.com.") (lit "max-age=60; includeSubDomains") true (.second 1)).secure
      (lit "www.example.com") (.second 60)).1 = true := by
  have hlearned : (Move.learn (lit "Example.com.") (lit "max-age=60; includeSubDomains") true (.second 1)).learned =
      some (lit "example.com", .second 1, ⟨60, true, false⟩) := by decide +kernel
  have hcourse : Course moves (new 4096) [learning (new 4096) (lit "Example.com.") (lit "max-age=60; includeSubDomains") (.second 1)]
      ((new 4096).learn (lit "Example.com.") (lit "max-age=60; includeSubDomains") true (.second 1)) := .single rfl
  have hkept := (protection_kept hcourse).2
    (List.forall_mem_singleton.2 (not_evicts_new 4096 (lit "Example.com.") (lit "max-age=60; includeSubDomains") (.second 1)))
    (List.forall_mem_singleton.2 (holds_of_learned hlearned (by decide +kernel)))
  refine (hkept.1 (lit "www.example.com") (.second 60) (by decide +kernel)).2 ⟨lit "www.example.com", by decide +kernel, .inr ?_⟩
  refine ⟨lit "www", lit "example.com", by decide +kernel, (.second 1, ⟨60, true, false⟩), ?_, by decide +kernel, rfl⟩
  exact (latest_of_learned hlearned _).trans (if_pos rfl)

/-- A host that asks to be protected for as long as can be asked is not protected at all, and a store that may hold no
    host holds one. -/
theorem protection_lost :
    (∃ h store, Course moves (new 4096) h store ∧ (∀ t ∈ h, ¬Evicts t) ∧ (∀ at' ∈ times h, at' ≤ .second 1) ∧
      (store.secure (lit "example.com") (.second 1)).1 = false ∧ Protected h (lit "example.com") (.second 1)) ∧
    ∃ h store, Course moves (new 0) h store ∧ (new 0).maxHstsEntries.toNat < store.entries.size := by
  have hlearned : (Move.learn (lit "example.com") (lit "max-age=9223372036854775807") true (.second 1)).learned =
      some (lit "example.com", .second 1, ⟨2 ^ 63 - 1, false, false⟩) := by decide +kernel
  have hcourse (most : UInt32) (header : Octets) : Course moves (new most)
      [learning (new most) (lit "example.com") header (.second 1)] ((new most).learn (lit "example.com") header true (.second 1)) :=
    .single rfl
  refine ⟨⟨_, _, hcourse 4096 (lit "max-age=9223372036854775807"), ?_, by decide +kernel, by decide +kernel, .inl ?_⟩,
    _, _, hcourse 0 (lit "max-age=60"), by decide +kernel⟩
  · exact List.forall_mem_singleton.2 (not_evicts_new 4096 _ _ _)
  · refine ⟨(.second 1, ⟨2 ^ 63 - 1, false, false⟩), ?_, by decide +kernel⟩
    exact (latest_of_learned hlearned _).trans (if_pos rfl)

end HSTSStore

end Soyokaze
