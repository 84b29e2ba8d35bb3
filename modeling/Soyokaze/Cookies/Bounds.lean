import Soyokaze.Cookies
import Mathlib.Logic.Relation

/-!
# How much a jar holds

A jar has a ceiling for all it holds and one for each domain, and learns cookies from
responses of any hosts, at any times.

* `CookieJar.learnOne_eq`: what learning one value comes to;
* `CookieJar.bounded_shown`, `CookieJar.evict_spec`: the ceilings are kept, and what makes
  room is what has expired or the oldest of what is at its ceiling;
* `CookieJar.bounds_kept_iff`: so after every sequence of values, unless a domain may hold none
  in a jar that may hold some.
-/

namespace Soyokaze

namespace CookieJar

/-- One `Set-Cookie` value that a response for a URL carried. -/
structure Lesson where
  url : URL
  now : Instant
  value : Octets

/-- The cookie a value sets, unless it must be ignored. -/
def Lesson.sets (l : Lesson) : Option StoredCookie :=
  match SetCookie.parse l.value with
  | .error _ => none
  | .ok cookie => resolve l.url cookie l.now

/-- The jar once it has been shown a value. -/
def shown (jar : CookieJar) (l : Lesson) : CookieJar := jar.learnOne l.url l.now l.value

/-- The jar once it has been shown some values. -/
def after (jar : CookieJar) (lessons : List Lesson) : CookieJar := lessons.foldl shown jar

/-- Whether one cookie replaces another: they share a name, a domain and a path. -/
def Replaces (new stored : StoredCookie) : Prop :=
  stored.name = new.name ∧ stored.domain = new.domain ∧ stored.path = new.path

/-- What a cookie leaves of a jar. -/
def others (jar : CookieJar) (new : StoredCookie) : List StoredCookie :=
  jar.entries.filter fun stored =>
    !(stored.name == new.name && stored.domain == new.domain && stored.path == new.path)

/-- How many cookies are of a domain. -/
def countOf (domain : Octets) (entries : List StoredCookie) : ℕ := entries.countP (·.domain == domain)

/-- The ceilings a jar is to keep itself under, with one cookie at most of a name, domain and path. -/
structure Bounded (jar : CookieJar) : Prop where
  total : jar.entries.length ≤ jar.maxCookies.toNat
  domain : ∀ domain, countOf domain jar.entries ≤ jar.maxCookiesPerDomain.toNat
  unique : jar.entries.Pairwise fun stored stored' => ¬ Replaces stored stored'

/-- One cookie goes: an expired one, the oldest of a domain at its ceiling, or the oldest of all at theirs. -/
inductive Evicts (jar : CookieJar) (now : Instant) (domain : Octets) :
    List StoredCookie → List StoredCookie → Prop
  | expired {before rest : List StoredCookie} {stored : StoredCookie} : stored.expired now = true →
      Evicts jar now domain (before ++ stored :: rest) (before ++ rest)
  | ofDomain {before rest : List StoredCookie} {oldest : StoredCookie} : oldest.domain = domain →
      (∀ stored ∈ before, stored.domain ≠ domain) →
      countOf domain (before ++ oldest :: rest) = jar.maxCookiesPerDomain.toNat →
      Evicts jar now domain (before ++ oldest :: rest) (before ++ rest)
  | ofAll {rest : List StoredCookie} {oldest : StoredCookie} :
      (oldest :: rest).length = jar.maxCookies.toNat → Evicts jar now domain (oldest :: rest) rest

/-- What holds of a jar once it has been shown a value. -/
structure Kept (jar : CookieJar) (l : Lesson) : Prop where
  bounded : (jar.shown l).Bounded
  /-- A cookie that has not expired is held, where any may be. -/
  learned : ∀ new, l.sets = some new → new.expired l.now = false → 1 ≤ jar.maxCookies.toNat →
    1 ≤ jar.maxCookiesPerDomain.toNat → new ∈ (jar.shown l).entries
  /-- What goes is what the cookie replaces, and what is evicted one after the other. -/
  evicts : ∀ new, l.sets = some new → ∃ kept,
    Relation.ReflTransGen (Evicts jar l.now new.domain) (jar.others new) kept ∧
      ((jar.shown l).entries = kept ∨ (jar.shown l).entries = kept ++ [new])
  ignored : l.sets = none → jar.shown l = jar
  /-- A cookie that replaces another has no unexpired one go for it. -/
  replaced : ∀ new, l.sets = some new → (∃ stored ∈ jar.entries, Replaces new stored) →
    ∀ stored ∈ jar.entries, ¬ Replaces new stored → stored.expired l.now = false →
      stored ∈ (jar.shown l).entries

/-! ## Learning a value -/

variable {jar : CookieJar} {l : Lesson} {new : StoredCookie}

@[simp] theorem maxCookies_shown (jar : CookieJar) (l : Lesson) : (jar.shown l).maxCookies = jar.maxCookies := by
  rw [shown, learnOne]
  split
  · rfl
  · split
    · rfl
    · dsimp only
      split_ifs <;> rfl

@[simp] theorem maxCookiesPerDomain_shown (jar : CookieJar) (l : Lesson) :
    (jar.shown l).maxCookiesPerDomain = jar.maxCookiesPerDomain := by
  rw [shown, learnOne]
  split
  · rfl
  · split
    · rfl
    · dsimp only
      split_ifs <;> rfl

/-- A cookie has expired as it is learned exactly where its `Max-Age` has passed. -/
theorem expired_resolve {url : URL} {cookie : SetCookie} {now : Instant} (h : resolve url cookie now = some new) :
    new.expired now = cookie.maxAge.any (· ≤ 0) := by
  obtain ⟨⟨domain, hostOnly⟩, -, rfl⟩ := Option.map_eq_some_iff.1 h
  rw [StoredCookie.expired]
  cases hage : cookie.maxAge with
  | none => rfl
  | some age =>
    simp only [Option.bind_some, Option.any_some]
    cases hadd : now.checkedAdd (max age 0).toNat with
    | none =>
      have hpast := Instant.lt_of_checkedAdd_eq_none hadd now
      have hpos : ¬ age ≤ 0 := fun hle => by
        rw [max_eq_right hle, Instant.after] at hpast
        omega
      simp [hpos]
    | some expiry =>
      have hnanos := Instant.checkedAdd_eq_some hadd
      rw [Instant.after] at hnanos
      have hiff : expiry ≤ now ↔ age ≤ 0 := by
        change expiry.nanos ≤ now.nanos ↔ _
        omega
      simp [hiff]

/-- What learning a value that sets a cookie comes to. -/
theorem shown_eq (h : l.sets = some new) : jar.shown l =
    if new.expired l.now = true ∨ jar.holds = false then { jar with entries := jar.others new }
    else { jar with entries := jar.evict new.domain ((jar.others new).filter (!·.expired l.now)) ++ [new] } := by
  rw [Lesson.sets] at h
  cases hparse : SetCookie.parse l.value with
  | error e =>
    rw [hparse] at h
    cases h
  | ok cookie =>
    rw [hparse] at h
    have hage := expired_resolve h
    rw [shown, learnOne, hparse]
    dsimp only at h ⊢
    rw [h]
    dsimp only
    rw [← hage]
    cases new.expired l.now <;> cases jar.holds <;> rfl

theorem shown_of_ignored (h : l.sets = none) : jar.shown l = jar := by
  rw [Lesson.sets] at h
  cases hparse : SetCookie.parse l.value with
  | error e => rw [shown, learnOne, hparse]
  | ok cookie =>
    rw [hparse] at h
    dsimp only at h
    rw [shown, learnOne, hparse]
    dsimp only
    rw [h]

theorem mem_others {stored : StoredCookie} :
    stored ∈ jar.others new ↔ stored ∈ jar.entries ∧ ¬ Replaces new stored := by
  rw [others, List.mem_filter, Replaces]
  simp only [Bool.not_eq_true', Bool.and_eq_false_iff, beq_eq_false_iff_ne]
  tauto

theorem others_sublist (jar : CookieJar) (new : StoredCookie) : (jar.others new).Sublist jar.entries :=
  List.filter_sublist

/-! ## Making room -/

@[simp] theorem countOf_append (domain : Octets) (entries more : List StoredCookie) :
    countOf domain (entries ++ more) = countOf domain entries + countOf domain more := List.countP_append

@[simp] theorem countOf_cons (domain : Octets) (stored : StoredCookie) (rest : List StoredCookie) :
    countOf domain (stored :: rest) = countOf domain rest + if stored.domain = domain then 1 else 0 := by
  rw [countOf, List.countP_cons]
  simp only [beq_iff_eq]
  rfl

@[simp] theorem countOf_nil (domain : Octets) : countOf domain [] = 0 := rfl

theorem countOf_le {domain : Octets} {entries kept : List StoredCookie} (h : kept.Sublist entries) :
    countOf domain kept ≤ countOf domain entries := h.countP_le

theorem dropOldest_of_lt {most : ℕ} {entries : List StoredCookie} (h : entries.length < most) :
    dropOldest most entries = entries := by
  cases entries with
  | nil => rfl
  | cons oldest rest => rw [dropOldest, if_neg h.not_ge]

/-- At the ceiling, one goes. -/
theorem dropOldest_of_length_eq {oldest : StoredCookie} {rest : List StoredCookie} {most : ℕ}
    (h : (oldest :: rest).length = most) : dropOldest most (oldest :: rest) = rest := by
  rw [dropOldest, if_pos h.ge]
  exact dropOldest_of_lt (h ▸ Nat.lt_succ_self _)

theorem evict_eq (jar : CookieJar) (domain : Octets) (entries : List StoredCookie) : jar.evict domain entries =
    dropOldest jar.maxCookies.toNat (if jar.maxCookiesPerDomain.toNat ≤ countOf domain entries then
      entries.eraseP (·.domain == domain) else entries) := rfl

theorem evict_of_room {domain : Octets} {entries : List StoredCookie}
    (hdomain : countOf domain entries < jar.maxCookiesPerDomain.toNat)
    (htotal : entries.length < jar.maxCookies.toNat) : jar.evict domain entries = entries := by
  rw [evict_eq, if_neg hdomain.not_ge]
  exact dropOldest_of_lt htotal

variable {domain : Octets} {now : Instant} {entries : List StoredCookie}

/-- What has expired goes one by one. -/
theorem evicts_filter (before entries : List StoredCookie) : Relation.ReflTransGen (Evicts jar now domain)
    (before ++ entries) (before ++ entries.filter (!·.expired now)) := by
  induction entries generalizing before with
  | nil => exact .refl
  | cons stored entries ih =>
    rw [List.filter_cons]
    cases hexpired : stored.expired now with
    | true => exact .head (.expired hexpired) (ih before)
    | false =>
      have := ih (before ++ [stored])
      simpa using this

/-- Room is made of a jar within its ceilings by evicting, and then there is room. -/
theorem evict_spec (hmax : 1 ≤ jar.maxCookies.toNat) (hper : 1 ≤ jar.maxCookiesPerDomain.toNat)
    (htotal : entries.length ≤ jar.maxCookies.toNat)
    (hdomain : countOf domain entries ≤ jar.maxCookiesPerDomain.toNat) :
    Relation.ReflTransGen (Evicts jar now domain) entries (jar.evict domain entries) ∧
      (jar.evict domain entries).Sublist entries ∧ (jar.evict domain entries).length < jar.maxCookies.toNat ∧
        countOf domain (jar.evict domain entries) < jar.maxCookiesPerDomain.toNat := by
  -- The ceiling of all is reached once at most.
  have hall {kept : List StoredCookie} (hlen : kept.length ≤ jar.maxCookies.toNat) :
      Relation.ReflTransGen (Evicts jar now domain) kept (dropOldest jar.maxCookies.toNat kept) ∧
        (dropOldest jar.maxCookies.toNat kept).Sublist kept ∧
          (dropOldest jar.maxCookies.toNat kept).length < jar.maxCookies.toNat := by
    rcases hlen.lt_or_eq with hlt | heq
    · rw [dropOldest_of_lt hlt]
      exact ⟨.refl, List.Sublist.refl _, hlt⟩
    · obtain - | ⟨oldest, rest⟩ := kept
      · rw [List.length_nil] at heq
        omega
      · rw [dropOldest_of_length_eq heq]
        exact ⟨.single (.ofAll heq), List.sublist_cons_self _ _, heq ▸ Nat.lt_succ_self _⟩
  rcases hdomain.lt_or_eq with hlt | heq
  · obtain ⟨hevicts, hsub, hlen⟩ := hall htotal
    rw [evict_eq, if_neg hlt.not_ge]
    exact ⟨hevicts, hsub, hlen, (countOf_le hsub).trans_lt hlt⟩
  · -- The domain is at its ceiling, so it has an oldest cookie.
    obtain ⟨stored, hstored, hof⟩ := List.countP_pos_iff.1 (show 0 < countOf domain entries by omega)
    obtain ⟨oldest, before, rest, hbefore, holdest, rfl, herase⟩ := List.exists_of_eraseP (p := (·.domain == domain)) hstored hof
    have hsub : (before ++ rest).Sublist (before ++ oldest :: rest) :=
      (List.sublist_cons_self oldest rest).append_left before
    have hcount : countOf domain (before ++ rest) + 1 = countOf domain (before ++ oldest :: rest) := by
      rw [countOf_append, countOf_append, countOf_cons, if_pos (beq_iff_eq.1 holdest), Nat.add_assoc]
    obtain ⟨hevicts, hdrop, hlen⟩ := hall (hsub.length_le.trans htotal)
    have hfirst : Evicts jar now domain (before ++ oldest :: rest) (before ++ rest) :=
      .ofDomain (beq_iff_eq.1 holdest) (fun stored h => by simpa using hbefore stored h) heq
    rw [evict_eq, if_pos heq.ge, herase]
    refine ⟨.head hfirst hevicts, hdrop.trans hsub, hlen, ?_⟩
    have hle : countOf domain _ ≤ countOf domain _ := countOf_le hdrop
    omega

/-! ## What is kept -/

theorem Bounded.of_sublist (h : jar.Bounded) (hsub : entries.Sublist jar.entries) :
    Bounded { jar with entries } :=
  ⟨hsub.length_le.trans h.total, fun domain => (countOf_le hsub).trans (h.domain domain), h.unique.sublist hsub⟩

theorem bounded_new (maxCookies : UInt32) (maxCookiesPerDomain : UInt16) :
    (CookieJar.new maxCookies maxCookiesPerDomain).Bounded := ⟨Nat.zero_le _, fun _ => Nat.zero_le _, .nil⟩

/-- A jar that holds nothing has nothing to hold. -/
theorem holds_iff (jar : CookieJar) : jar.holds = true ↔ 1 ≤ jar.maxCookies.toNat := by
  rw [holds, decide_eq_true_iff, UInt32.lt_iff_toNat_lt]
  rfl

/-- What a cookie evicts in a jar within its ceilings, and that there is room for it then. -/
theorem evict_others (hmax : 1 ≤ jar.maxCookies.toNat) (hper : 1 ≤ jar.maxCookiesPerDomain.toNat)
    (h : jar.Bounded) (new : StoredCookie) (now : Instant) :
    Relation.ReflTransGen (Evicts jar now new.domain) (jar.others new)
        (jar.evict new.domain ((jar.others new).filter (!·.expired now))) ∧
      (jar.evict new.domain ((jar.others new).filter (!·.expired now))).Sublist (jar.others new) ∧
      (jar.evict new.domain ((jar.others new).filter (!·.expired now))).length < jar.maxCookies.toNat ∧
      countOf new.domain (jar.evict new.domain ((jar.others new).filter (!·.expired now))) <
        jar.maxCookiesPerDomain.toNat := by
  have hsub : ((jar.others new).filter (!·.expired now)).Sublist jar.entries :=
    List.filter_sublist.trans (others_sublist jar new)
  obtain ⟨hevicts, hkept, hlen, hcount⟩ := @evict_spec jar new.domain now _ hmax hper
    (hsub.length_le.trans h.total) ((countOf_le hsub).trans (h.domain _))
  exact ⟨(evicts_filter [] (jar.others new)).trans hevicts, hkept.trans List.filter_sublist, hlen, hcount⟩

theorem bounded_shown (hper : jar.maxCookies.toNat = 0 ∨ 1 ≤ jar.maxCookiesPerDomain.toNat) (h : jar.Bounded)
    (l : Lesson) : (jar.shown l).Bounded := by
  cases hsets : l.sets with
  | none => rwa [shown_of_ignored hsets]
  | some new =>
    rw [shown_eq hsets]
    split_ifs with hoff
    · exact h.of_sublist (others_sublist jar new)
    · obtain ⟨-, hholds⟩ := not_or.1 hoff
      have hmax := (holds_iff jar).1 (Bool.eq_true_of_not_eq_false hholds)
      obtain ⟨-, hsub, hlen, hcount⟩ := evict_others hmax (by omega) h new l.now
      have hkept := h.of_sublist (hsub.trans (others_sublist jar new))
      refine ⟨?_, fun domain => ?_, ?_⟩
      · rw [List.length_append]
        exact hlen
      · rw [countOf_append, countOf_cons, countOf_nil]
        split_ifs with hdomain
        · exact hdomain ▸ hcount
        · exact hkept.domain domain
      · refine List.pairwise_append.2 ⟨hkept.unique, List.pairwise_singleton _ _, fun stored hstored new' hnew => ?_⟩
        obtain rfl := List.mem_singleton.1 hnew
        rintro ⟨hname, hdomain, hpath⟩
        exact (mem_others.1 (hsub.subset hstored)).2 ⟨hname.symm, hdomain.symm, hpath.symm⟩

/-- What a cookie replaces leaves room for it. -/
theorem evict_of_replaced (h : jar.Bounded) {new stored : StoredCookie} (hstored : stored ∈ jar.entries)
    (hreplaces : Replaces new stored) (now : Instant) :
    jar.evict new.domain ((jar.others new).filter (!·.expired now)) = (jar.others new).filter (!·.expired now) := by
  obtain ⟨before, rest, hentries⟩ := List.append_of_mem hstored
  have hgone : (!(stored.name == new.name && stored.domain == new.domain && stored.path == new.path)) = false := by
    simp [hreplaces.1, hreplaces.2.1, hreplaces.2.2]
  have hothers : (jar.others new).Sublist (before ++ rest) := by
    rw [others, hentries, List.filter_append, List.filter_cons_of_neg (by rw [hgone]; exact Bool.false_ne_true)]
    exact List.filter_sublist.append List.filter_sublist
  have hsub := List.filter_sublist (p := (!·.expired now)) |>.trans hothers
  have htotal := h.total
  have hdomain := h.domain new.domain
  rw [hentries, List.length_append, List.length_cons] at htotal
  rw [hentries, countOf_append, countOf_cons, if_pos hreplaces.2.1] at hdomain
  refine evict_of_room ((countOf_le hsub).trans_lt ?_) (hsub.length_le.trans_lt ?_)
  · rw [countOf_append]
    omega
  · rw [List.length_append]
    omega

theorem kept_shown (hper : jar.maxCookies.toNat = 0 ∨ 1 ≤ jar.maxCookiesPerDomain.toNat) (h : jar.Bounded)
    (l : Lesson) : jar.Kept l where
  bounded := bounded_shown hper h l
  ignored := shown_of_ignored
  learned new hsets hlive hmax _ := by
    have hholds := (holds_iff jar).2 hmax
    rw [shown_eq hsets, if_neg (by simp [hlive, hholds])]
    exact List.mem_append_right _ List.mem_cons_self
  evicts new hsets := by
    rw [shown_eq hsets]
    split_ifs with hoff
    · exact ⟨jar.others new, .refl, .inl rfl⟩
    · obtain ⟨-, hholds⟩ := not_or.1 hoff
      have hmax := (holds_iff jar).1 (Bool.eq_true_of_not_eq_false hholds)
      exact ⟨_, (evict_others hmax (by omega) h new l.now).1, .inr rfl⟩
  replaced new hsets := by
    rintro ⟨old, hold, hreplaces⟩ stored hstored hother hlive
    rw [shown_eq hsets, evict_of_replaced h hold hreplaces]
    have hmem : stored ∈ jar.others new := mem_others.2 ⟨hstored, hother⟩
    split_ifs
    · exact hmem
    · exact List.mem_append_left _ (List.mem_filter.2 ⟨hmem, by rw [hlive]; rfl⟩)

/-! ## Every sequence of values -/

theorem bounded_after (hper : jar.maxCookies.toNat = 0 ∨ 1 ≤ jar.maxCookiesPerDomain.toNat) (h : jar.Bounded)
    (lessons : List Lesson) : (jar.after lessons).Bounded ∧ (jar.after lessons).maxCookies = jar.maxCookies ∧
      (jar.after lessons).maxCookiesPerDomain = jar.maxCookiesPerDomain := by
  induction lessons generalizing jar with
  | nil => exact ⟨h, rfl, rfl⟩
  | cons l lessons ih =>
    obtain ⟨hbounded, hmax, hdomain⟩ := @ih (jar.shown l) (by simpa using hper) (bounded_shown hper h l)
    exact ⟨hbounded, hmax.trans (maxCookies_shown jar l), hdomain.trans (maxCookiesPerDomain_shown jar l)⟩

/-- A value that sets a cookie for the host alone. -/
def plain : Lesson := ⟨⟨lit "https", lit "example.com", lit "/"⟩, .second 2, lit "sid=1"⟩

theorem plain_sets : plain.sets =
    some ⟨lit "sid", lit "1", lit "example.com", true, lit "/", false, none⟩ := by decide +kernel

/-- One cookie is held of a domain that may hold none. -/
theorem not_kept_plain {maxCookies : UInt32} {maxCookiesPerDomain : UInt16} (hmax : maxCookies.toNat ≠ 0)
    (hper : maxCookiesPerDomain.toNat = 0) : ¬ (CookieJar.new maxCookies maxCookiesPerDomain).Kept plain := by
  intro h
  have hkept := h.bounded.domain (lit "example.com")
  have hholds := (holds_iff (CookieJar.new maxCookies maxCookiesPerDomain)).2 (Nat.pos_of_ne_zero hmax)
  rw [maxCookiesPerDomain_shown, shown_eq plain_sets, if_neg (by rw [hholds]; simp [StoredCookie.expired]),
    countOf_append, countOf_cons, if_pos rfl] at hkept
  have hone : 1 ≤ maxCookiesPerDomain.toNat := (Nat.le_add_left 1 _).trans hkept
  omega

/-- After every sequence of values a jar is within its ceilings and holds what it was told
    last, and room was made as it should be, exactly where a domain may hold a cookie if the jar
    may. -/
theorem bounds_kept_iff (maxCookies : UInt32) (maxCookiesPerDomain : UInt16) :
    (∀ lessons l, ((CookieJar.new maxCookies maxCookiesPerDomain).after lessons).Kept l) ↔
      maxCookies.toNat = 0 ∨ 1 ≤ maxCookiesPerDomain.toNat := by
  constructor
  · intro h
    by_contra hnot
    obtain ⟨hmax, hper⟩ := not_or.1 hnot
    exact not_kept_plain hmax (by omega) (h [] plain)
  · intro hper lessons l
    obtain ⟨hbounded, hmax, hdomain⟩ := bounded_after hper (bounded_new maxCookies maxCookiesPerDomain) lessons
    refine kept_shown ?_ hbounded l
    rw [hmax, hdomain]
    exact hper

/-- A domain that may hold no cookie holds one. -/
theorem bounds_lost : ¬ ∀ (maxCookies : UInt32) (maxCookiesPerDomain : UInt16) (lessons : List Lesson) (l : Lesson),
    ((CookieJar.new maxCookies maxCookiesPerDomain).after lessons).Kept l := by
  intro h
  exact not_kept_plain (by decide) (by decide) (h 3000 0 [] plain)

end CookieJar

end Soyokaze
