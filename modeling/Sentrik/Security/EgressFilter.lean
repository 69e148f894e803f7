import Sentrik.Checks.Client
import Sentrik.Library.Bytes
import Sentrik.Library.UrlText
import Sentrik.Security.EgressScript
import Sentrik.Security.ReferenceHttpx
import Sentrik.Security.Totality

/-!
# What the egress script lets through

Read line by line, the script denies by default, and accepts what the record allows, exactly when the lines
that begin inside the text of a host are harmless (`script_faithful_iff`): those behind its line breaks, and
all lines of a rule whose address is no single word.

No line begins there when the hosts have no line breaks and the addresses no blanks.
-/

namespace Sentrik

open PacketFilter

/-! ### Words -/

/-- One word of a line: not empty, no comment, without blanks and line breaks. -/
def IsWord (w : Text) : Prop := w ≠ [] ∧ w.head? ≠ some '#' ∧ ' ' ∉ w ∧ '\t' ∉ w ∧ '\n' ∉ w

instance : DecidablePred IsWord := fun _ ↦ inferInstanceAs (Decidable (_ ∧ _))

/-- The words of a line. -/
def lineWords (line : Text) : List Text :=
  (Text.split ' ' (line.map fun c ↦ if c = '\t' then ' ' else c)).filter (· ≠ [])

theorem commandWords_eq (line : Text) :
    commandWords line = (lineWords line).takeWhile fun w ↦ w.head? != some '#' := rfl

theorem lineWords_append (a b : Text) : lineWords (a ++ ' ' :: b) = lineWords a ++ lineWords b := by
  rw [lineWords, List.map_append, List.map_cons, if_neg (by decide), Text.split_append_cons, List.filter_append]
  rfl

theorem lineWords_word {w : Text} (h : IsWord w) : lineWords w = [w] := by
  obtain ⟨hne, -, hblank, htab, -⟩ := h
  have hmap : (w.map fun c ↦ if c = '\t' then ' ' else c) = w := by
    refine (List.map_congr_left fun c hc ↦ if_neg ?_).trans (List.map_id w)
    rintro rfl
    exact htab hc
  have hsplit := Text.split_append hblank (show Text.split ' ' [] = [[]] from rfl)
  rw [List.append_nil] at hsplit
  rw [lineWords, hmap, hsplit, List.filter_cons, if_pos (decide_eq_true hne)]
  rfl

/-- A word in front of the rest of a line. -/
theorem commandWords_cons {w : Text} (h : IsWord w) (b : Text) :
    commandWords (w ++ ' ' :: b) = w :: commandWords b := by
  have hmark : (w.head? != some '#') = true := bne_iff_ne.2 h.2.1
  rw [commandWords_eq, commandWords_eq, lineWords_append, lineWords_word h, List.singleton_append,
    List.takeWhile_cons, hmark]
  rfl

theorem commandWords_blank (b : Text) : commandWords (' ' :: b) = commandWords b := by
  have hnil : lineWords [] = [] := by decide
  rw [commandWords_eq, commandWords_eq, ← List.nil_append (' ' :: b), lineWords_append, hnil,
    List.nil_append]

/-- A comment. -/
theorem commandWords_comment (b : Text) : commandWords ('#' :: b) = [] := by
  obtain ⟨part, rest, hsplit⟩ := List.exists_cons_of_ne_nil
    (Text.split_ne_nil ' ' (b.map fun c ↦ if c = '\t' then ' ' else c))
  have hwords : lineWords ('#' :: b) = ('#' :: part) :: rest.filter (· ≠ []) := by
    rw [lineWords, List.map_cons, if_neg (by decide), Text.split_cons_of_ne (by decide) hsplit,
      List.filter_cons, if_pos (decide_eq_true (List.cons_ne_nil '#' part))]
  rw [commandWords_eq, hwords, List.takeWhile_cons]
  rfl

/-! ### Lines -/

/-- What stands in front of a text, if it has no line break, goes into the first line. -/
theorem split_append_tail {a : Text} (h : '\n' ∉ a) (b : Text) :
    ∃ first rest, Text.split '\n' b = first :: rest ∧ Text.split '\n' (a ++ b) = (a ++ first) :: rest := by
  obtain ⟨first, rest, hsplit⟩ := List.exists_cons_of_ne_nil (Text.split_ne_nil '\n' b)
  exact ⟨first, rest, hsplit, Text.split_append h hsplit⟩

/-- The lines that begin inside a text stay, whatever stands in front of it. -/
theorem tail_split_subset (a b : Text) : (Text.split '\n' b).tail ⊆ (Text.split '\n' (a ++ b)).tail := by
  induction a with
  | nil => exact List.Subset.refl _
  | cons x a ih =>
    obtain ⟨part, rest, hsplit⟩ := List.exists_cons_of_ne_nil (Text.split_ne_nil '\n' (a ++ b))
    rw [hsplit] at ih
    rcases eq_or_ne x '\n' with rfl | hx
    · rw [List.cons_append, Text.split_cons_self, hsplit]
      exact fun l hl ↦ List.mem_cons_of_mem _ (ih hl)
    · rw [List.cons_append, Text.split_cons_of_ne hx hsplit]
      exact ih

/-! ### Ports -/

theorem portText_ofNat (n : ℕ) : portText n = Text.decimal n := by
  show (Nat.repr n).toList = Nat.toDigits 10 n
  rw [Nat.repr]
  exact String.toList_ofList

theorem portText_negSucc (n : ℕ) : portText (.negSucc n) = '-' :: Text.decimal (n + 1) := by
  show ("-" ++ Nat.repr (n + 1)).toList = _
  rw [String.toList_append]
  exact congrArg ('-' :: ·) (portText_ofNat (n + 1))

theorem isWord_portText (port : ℤ) : IsWord (portText port) := by
  have hword : ∀ w : Text, w ≠ [] → (∀ c ∈ w, c.isDigit = true ∨ c = '-') → IsWord w := by
    intro w hne hall
    have hnot : ∀ c, c.isDigit = false → c ≠ '-' → c ∉ w := by
      intro c hdigit hminus hc
      rcases hall c hc with h | h
      · rw [h] at hdigit
        cases hdigit
      · exact hminus h
    refine ⟨hne, fun hhead ↦ ?_, hnot ' ' (by decide) (by decide), hnot '\t' (by decide) (by decide),
      hnot '\n' (by decide) (by decide)⟩
    exact hnot '#' (by decide) (by decide) (List.mem_of_mem_head? hhead)
  cases port with
  | ofNat n =>
    have htext : portText (.ofNat n) = Text.decimal n := portText_ofNat n
    rw [htext]
    exact hword _ Nat.toDigits_ne_nil fun c hc ↦ Or.inl (Text.isDigit_of_mem_decimal hc)
  | negSucc n =>
    rw [portText_negSucc]
    refine hword _ (List.cons_ne_nil _ _) fun c hc ↦ ?_
    rcases List.mem_cons.1 hc with rfl | hc
    · exact Or.inr rfl
    · exact Or.inl (Text.isDigit_of_mem_decimal hc)

/-- A port is read back. -/
theorem eq_of_portText_eq {n : ℕ} {port : ℤ} (h : portText n = portText port) : port = n := by
  rw [portText_ofNat] at h
  cases port with
  | ofNat m =>
    have htext : portText (.ofNat m) = Text.decimal m := portText_ofNat m
    rw [htext] at h
    exact congrArg Int.ofNat (Text.decimal_injective h.symm)
  | negSucc m =>
    rw [portText_negSucc] at h
    have hminus : '-' ∈ Text.decimal n := h ▸ List.mem_cons_self
    exact absurd (Text.isDigit_of_mem_decimal hminus) (by decide)

/-! ### Reading the lines -/

/-- What the lines of the script set up, but for the destinations. -/
def fixedCommands : List (Command Guard) := [
  .policy .DROP,
  .append ⟨{ out := some "lo".toList }, .ACCEPT⟩,
  .append ⟨{ state := some "ESTABLISHED,RELATED".toList }, .ACCEPT⟩,
  .append ⟨{ protocol := some "udp".toList, dport := some "53".toList }, .ACCEPT⟩,
  .append ⟨{ protocol := some "tcp".toList, dport := some "53".toList }, .ACCEPT⟩,
  .append ⟨{}, .REJECT⟩]

/-- The command that lets a destination through. -/
def acceptCommand (ip : Text) (port : ℤ) : Command Guard :=
  .append ⟨{ protocol := some "tcp".toList, dest := some ip, dport := some (portText port) }, .ACCEPT⟩

theorem readCommand_accept (ip port : Text) :
    readCommand ["iptables".toList, "-A".toList, "OUTPUT".toList, "-d".toList, ip, "-p".toList,
        "tcp".toList, "--dport".toList, port, "-j".toList, "ACCEPT".toList] =
      some (.append ⟨{ protocol := some "tcp".toList, dest := some ip, dport := some port }, .ACCEPT⟩) := by
  rfl

/-- The words of a rule, a comment behind it. -/
theorem commandWords_rule {a b c d ip e f g port i j : Text} (ha : IsWord a) (hb : IsWord b)
    (hc : IsWord c) (hd : IsWord d) (hip : IsWord ip) (he : IsWord e) (hf : IsWord f) (hg : IsWord g)
    (hport : IsWord port) (hi : IsWord i) (hj : IsWord j) (x : Text) :
    commandWords (a ++ ' ' :: (b ++ ' ' :: (c ++ ' ' :: (d ++ ' ' :: (ip ++ ' ' :: (e ++ ' ' ::
      (f ++ ' ' :: (g ++ ' ' :: (port ++ ' ' :: (i ++ ' ' :: (j ++ ' ' :: (' ' :: '#' :: x)))))))))))) =
      [a, b, c, d, ip, e, f, g, port, i, j] := by
  rw [commandWords_cons ha, commandWords_cons hb, commandWords_cons hc, commandWords_cons hd,
    commandWords_cons hip, commandWords_cons he, commandWords_cons hf, commandWords_cons hg,
    commandWords_cons hport, commandWords_cons hi, commandWords_cons hj, commandWords_blank,
    commandWords_comment]

/-- The rule of a destination, up to the name of its host. -/
def acceptFront (ip : Text) (port : ℤ) : Text := acceptLine ip port []

theorem acceptLine_eq (ip : Text) (port : ℤ) (host : Text) :
    acceptLine ip port host = acceptFront ip port ++ host := by
  have hshape : ∀ t : Text, t ++ host = t ++ [] ++ host := fun t ↦ by rw [List.append_nil]
  exact hshape _

/-- A rule with a word for its address is read as the command of the destination, whatever its comment. -/
theorem readCommand_acceptFront {ip : Text} (h : IsWord ip) (port : ℤ) (x : Text) :
    readCommand (commandWords (acceptFront ip port ++ x)) = some (acceptCommand ip port) := by
  have h1 : "iptables -A OUTPUT -d ".toList = "iptables".toList ++ ' ' :: ("-A".toList ++ ' ' ::
      ("OUTPUT".toList ++ ' ' :: ("-d".toList ++ [' ']))) := by decide
  have h2 : " -p tcp --dport ".toList = ' ' :: ("-p".toList ++ ' ' :: ("tcp".toList ++ ' ' ::
      ("--dport".toList ++ [' ']))) := by decide
  have h3 : " -j ACCEPT  # ".toList = ' ' :: ("-j".toList ++ ' ' :: ("ACCEPT".toList ++
      [' ', ' ', '#', ' '])) := by decide
  -- the words are variables here, so that nothing looks into them
  have hshape : ∀ {t1 t2 t3 a b c d e f g i j : Text},
      t1 = a ++ ' ' :: (b ++ ' ' :: (c ++ ' ' :: (d ++ [' ']))) →
      t2 = ' ' :: (e ++ ' ' :: (f ++ ' ' :: (g ++ [' ']))) →
      t3 = ' ' :: (i ++ ' ' :: (j ++ [' ', ' ', '#', ' '])) →
      t1 ++ ip ++ t2 ++ portText port ++ t3 ++ [] ++ x =
        a ++ ' ' :: (b ++ ' ' :: (c ++ ' ' :: (d ++ ' ' :: (ip ++ ' ' :: (e ++ ' ' :: (f ++ ' ' ::
          (g ++ ' ' :: (portText port ++ ' ' :: (i ++ ' ' :: (j ++ ' ' ::
            (' ' :: '#' :: (' ' :: x)))))))))))) := by
    rintro t1 t2 t3 a b c d e f g i j rfl rfl rfl
    simp only [List.append_assoc, List.cons_append, List.nil_append]
  have hwords := (congrArg commandWords (hshape h1 h2 h3)).trans
    (commandWords_rule (by decide) (by decide) (by decide) (by decide) h (by decide) (by decide)
      (by decide) (isWord_portText port) (by decide) (by decide) (' ' :: x))
  exact (congrArg readCommand hwords).trans (readCommand_accept ip (portText port))

theorem lf_notMem_acceptFront {ip : Text} (h : IsWord ip) (port : ℤ) : '\n' ∉ acceptFront ip port := by
  have h1 : '\n' ∉ "iptables -A OUTPUT -d ".toList := by decide
  have h2 : '\n' ∉ " -p tcp --dport ".toList := by decide
  have h3 : '\n' ∉ " -j ACCEPT  # ".toList := by decide
  have hshape : ∀ {t1 t2 t3 : Text}, '\n' ∉ t1 → '\n' ∉ t2 → '\n' ∉ t3 →
      '\n' ∉ t1 ++ ip ++ t2 ++ portText port ++ t3 ++ [] := by
    intro t1 t2 t3 h1 h2 h3
    simp only [List.mem_append, not_or]
    exact ⟨⟨⟨⟨⟨h1, h.2.2.2.2⟩, h2⟩, (isWord_portText port).2.2.2.2⟩, h3⟩, List.not_mem_nil⟩
  exact hshape h1 h2 h3

/-! ### What is let through -/

section

variable [u : UnicodeTables]

/-- The port the resolver is asked with. -/
def firstPort (profile : SandboxProfile) : ℕ := ((egressPorts profile).headD 0).toNat

/-- A host that is let through: no wildcard, resolved, and not blocked. -/
structure HostLetThrough (profile : SandboxProfile) (answers : Text → DnsAnswer) (host : Text)
    (info : HostInfo) : Prop where
  listed : host ∈ profile.allowed_hosts
  concrete : Text.startswith host "*.".toList = false
  resolved : resolve_host host (firstPort profile) true (answers host) = .ok info
  not_blocked : info.is_hard_blocked = false
  public_ : (info.is_private || info.is_loopback) = true → profile.allow_private = true

/-- An address of such a host, at an allowed port. -/
def Destination (profile : SandboxProfile) (answers : Text → DnsAnswer) (ip : Text) (port : ℤ) : Prop :=
  (∃ host info, HostLetThrough profile answers host info ∧ ip ∈ info.resolved_ips) ∧ port ∈ egressPorts profile

/-- A command of the script: the policy, a fixed rule, or the rule of a destination. -/
def Permitted (profile : SandboxProfile) (answers : Text → DnsAnswer) (command : Command Guard) : Prop :=
  command ∈ fixedCommands ∨
    ∃ ip port, Destination profile answers ip port ∧ command = acceptCommand ip port

/-- A line that is a comment, blank, or one of the rules. -/
def Harmless (profile : SandboxProfile) (answers : Text → DnsAnswer) (line : Text) : Prop :=
  commandWords line = [] ∨
    ∃ command, readCommand (commandWords line) = some command ∧ Permitted profile answers command

/-- **What the script is for**: each line is a comment or one of the rules, the default is to deny, and what is
new is accepted on the loopback interface, to the name server's port, or at a destination. -/
structure FaithfulScript (profile : SandboxProfile) (answers : Text → DnsAnswer) (rules : List Text) :
    Prop where
  lines : ∀ line ∈ scriptLines rules, Harmless profile answers line
  denies : (scriptChain rules).policy = .DROP
  accepts : ∀ p : Packet, p.state = "NEW".toList → (scriptChain rules).verdict Guard.sat p = .ACCEPT →
    p.out = "lo".toList ∨
      ((p.protocol = "udp".toList ∨ p.protocol = "tcp".toList) ∧ p.dport = 53) ∨
      (p.protocol = "tcp".toList ∧ ∃ ip, IpAddress.ip_address ip = some p.address ∧
        Destination profile answers ip p.dport)

/-! ### From the lines to the chain -/

variable {profile : SandboxProfile} {answers : Text → DnsAnswer} {rules : List Text}

theorem permitted_of_mem (h : ∀ line ∈ scriptLines rules, Harmless profile answers line)
    {command : Command Guard}
    (hcommand : command ∈ (scriptLines rules).filterMap fun line ↦ readCommand (commandWords line)) :
    Permitted profile answers command := by
  obtain ⟨line, hline, hread⟩ := List.mem_filterMap.1 hcommand
  rcases h line hline with hcomment | ⟨c, hc, hpermitted⟩
  · rw [hcomment] at hread
    cases hread
  · rw [hread] at hc
    obtain rfl := Option.some.inj hc
    exact hpermitted

/-- A permitted rule accepts nothing new but what the record allows. -/
theorem accepted_of_permitted {rule : Rule Guard} (h : Permitted profile answers (.append rule))
    (htarget : rule.target = .ACCEPT) {p : Packet} (hnew : p.state = "NEW".toList)
    (hsat : rule.guard.sat p = true) : p.out = "lo".toList ∨
      ((p.protocol = "udp".toList ∨ p.protocol = "tcp".toList) ∧ p.dport = 53) ∨
      (p.protocol = "tcp".toList ∧ ∃ ip, IpAddress.ip_address ip = some p.address ∧
        Destination profile answers ip p.dport) := by
  rw [Guard.sat] at hsat
  simp only [Bool.and_eq_true] at hsat
  obtain ⟨⟨⟨⟨hout, hstate⟩, hprotocol⟩, hdest⟩, hport⟩ := hsat
  have hdns : portText p.dport = "53".toList → p.dport = 53 := by
    intro h
    have hport : portText p.dport = portText 53 := h
    exact (Int.ofNat.inj (eq_of_portText_eq hport)).symm
  rcases h with hfixed | ⟨ip, port, hdestination, heq⟩
  · simp only [fixedCommands, List.mem_cons, List.not_mem_nil, or_false, reduceCtorEq, false_or,
      Command.append.injEq] at hfixed
    rcases hfixed with rfl | rfl | rfl | rfl | rfl
    · exact Or.inl (of_decide_eq_true hout)
    · -- nothing new is established
      have hmem : (Text.split ',' "ESTABLISHED,RELATED".toList).contains p.state = true := hstate
      rw [hnew] at hmem
      exact absurd hmem (by decide)
    · exact Or.inr (Or.inl ⟨Or.inl (of_decide_eq_true hprotocol), hdns (of_decide_eq_true hport)⟩)
    · exact Or.inr (Or.inl ⟨Or.inr (of_decide_eq_true hprotocol), hdns (of_decide_eq_true hport)⟩)
    · cases htarget
  · obtain rfl := Command.append.inj heq
    have hread := eq_of_portText_eq (of_decide_eq_true hport)
    refine Or.inr (Or.inr ⟨of_decide_eq_true hprotocol, ip, of_decide_eq_true hdest, ?_⟩)
    rw [← hread]
    exact hdestination

/-! ### The hosts -/

omit u in
theorem egressPorts_ne_nil (profile : SandboxProfile) : egressPorts profile ≠ [] := by
  rw [egressPorts]
  by_cases h : profile.allowed_ports.dedup.insertionSort (· ≤ ·) = []
  · rw [if_pos h]
    exact List.cons_ne_nil _ _
  · rw [if_neg h]
    exact h

/-- The addresses of a host are let through as they are resolved. -/
theorem letThrough_of_egressOutcome {host : Text} (hlisted : host ∈ profile.allowed_hosts) {ips : List Text}
    (h : egressOutcome profile (firstPort profile) (answers host) host = .ok (.inr ips)) :
    ∃ info, HostLetThrough profile answers host info ∧ info.resolved_ips = ips ∧ ips ≠ [] := by
  rw [egressOutcome] at h
  by_cases hwild : Text.startswith host "*.".toList = true
  · rw [if_pos hwild] at h
    cases h
  rw [if_neg hwild] at h
  cases hresolve : resolve_host host (firstPort profile) true (answers host) with
  | error exc =>
    rw [hresolve] at h
    cases exc <;> cases h
  | ok info =>
    rw [hresolve] at h
    change (if info.is_hard_blocked = true then _ else _) = _ at h
    by_cases hhard : info.is_hard_blocked = true
    · rw [if_pos hhard] at h
      cases h
    rw [if_neg hhard] at h
    by_cases hprivate : ((info.is_private || info.is_loopback) && !profile.allow_private) = true
    · rw [if_pos hprivate] at h
      cases h
    rw [if_neg hprivate] at h
    obtain rfl := Sum.inr.inj (Except.ok.inj h)
    refine ⟨info, ⟨hlisted, Bool.eq_false_iff.2 hwild, hresolve, Bool.eq_false_iff.2 hhard,
      fun hinternal ↦ ?_⟩, rfl, (resolve_host_ok hresolve).2.1⟩
    by_contra hallow
    exact hprivate (by rw [hinternal, Bool.eq_false_iff.2 hallow]; rfl)

/-- The lines that begin inside the text of a host: behind its line breaks, and all lines of a rule whose
address is no word. -/
def ownLines (profile : SandboxProfile) (answers : Text → DnsAnswer) (host : Text) : List Text :=
  match egressOutcome profile (firstPort profile) (answers host) host with
  | .ok (.inl reason) => (Text.split '\n' (host ++ reason)).tail
  | .ok (.inr ips) => (Text.split '\n' host).tail ++ (ips.filter fun ip ↦ ¬IsWord ip).flatMap fun ip ↦
      (egressPorts profile).flatMap fun port ↦ Text.split '\n' (acceptLine ip port host)
  | .error _ => []

/-- The other lines about a host are harmless. -/
theorem hostLines_harmless_iff {host : Text} (hlisted : host ∈ profile.allowed_hosts)
    {outcome : Text ⊕ List Text}
    (h : egressOutcome profile (firstPort profile) (answers host) host = .ok outcome) :
    (∀ line ∈ scriptLines (hostLines (egressPorts profile) host outcome), Harmless profile answers line) ↔
      ∀ line ∈ ownLines profile answers host, Harmless profile answers line := by
  rw [ownLines, h]
  cases outcome with
  | inl reason =>
    have hfront : '\n' ∉ "# host ".toList := by decide
    obtain ⟨first, rest, hsplit, hwhole⟩ := split_append_tail hfront (host ++ reason)
    have hskip : scriptLines [skipLine host reason] = ("# host ".toList ++ first) :: rest := by
      have hline : skipLine host reason = "# host ".toList ++ (host ++ reason) :=
        List.append_assoc _ _ _
      show Text.split '\n' (skipLine host reason) ++ [] = _
      rw [List.append_nil, hline, hwhole]
    have hcomment : Harmless profile answers ("# host ".toList ++ first) :=
      Or.inl (commandWords_comment (" host ".toList ++ first))
    show (∀ line ∈ scriptLines [skipLine host reason], _) ↔
      ∀ line ∈ (Text.split '\n' (host ++ reason)).tail, _
    rw [hskip, hsplit, List.forall_mem_cons]
    exact and_iff_right hcomment
  | inr ips =>
    obtain ⟨info, hthrough, rfl, hne⟩ := letThrough_of_egressOutcome hlisted h
    have hmem : ∀ line, line ∈ scriptLines (hostLines (egressPorts profile) host (.inr info.resolved_ips)) ↔
        ∃ ip ∈ info.resolved_ips, ∃ port ∈ egressPorts profile,
          line ∈ Text.split '\n' (acceptLine ip port host) := by
      intro line
      rw [scriptLines, hostLines, List.mem_flatMap]
      constructor
      · rintro ⟨rule, hrule, hline⟩
        obtain ⟨ip, hip, hrule⟩ := List.mem_flatMap.1 hrule
        obtain ⟨port, hport, rfl⟩ := List.mem_map.1 hrule
        exact ⟨ip, hip, port, hport, hline⟩
      · rintro ⟨ip, hip, port, hport, hline⟩
        exact ⟨_, List.mem_flatMap.2 ⟨ip, hip, List.mem_map_of_mem hport⟩, hline⟩
    constructor
    · intro hall line hline
      refine hall line ((hmem line).2 ?_)
      rcases List.mem_append.1 hline with hline | hline
      · -- the line stands in every rule of the host
        obtain ⟨ip, hip⟩ := List.exists_mem_of_ne_nil _ hne
        obtain ⟨port, hport⟩ := List.exists_mem_of_ne_nil _ (egressPorts_ne_nil profile)
        refine ⟨ip, hip, port, hport, ?_⟩
        rw [acceptLine_eq]
        exact List.mem_of_mem_tail (tail_split_subset (acceptFront ip port) host hline)
      · obtain ⟨ip, hip, hline⟩ := List.mem_flatMap.1 hline
        obtain ⟨port, hport, hline⟩ := List.mem_flatMap.1 hline
        exact ⟨ip, (List.mem_filter.1 hip).1, port, hport, hline⟩
    · intro hown line hline
      obtain ⟨ip, hip, port, hport, hline⟩ := (hmem line).1 hline
      by_cases hword : IsWord ip
      · obtain ⟨first, rest, hsplit, hwhole⟩ :=
          split_append_tail (lf_notMem_acceptFront hword port) host
        rw [acceptLine_eq, hwhole] at hline
        rcases List.mem_cons.1 hline with rfl | hline
        · exact Or.inr ⟨_, readCommand_acceptFront hword port first,
            Or.inr ⟨ip, port, ⟨⟨host, info, hthrough, hip⟩, hport⟩, rfl⟩⟩
        · refine hown line (List.mem_append_left _ ?_)
          rw [hsplit]
          exact hline
      · exact hown line (List.mem_append_right _ (List.mem_flatMap.2
          ⟨ip, List.mem_filter.2 ⟨hip, decide_eq_true hword⟩, List.mem_flatMap.2 ⟨port, hport, hline⟩⟩))

/-! ### The script -/

/-- A line of the script that no host has a part in. -/
def isFixedLine (line : Text) : Bool :=
  commandWords line == [] || (readCommand (commandWords line)).any (fixedCommands.contains ·)

theorem harmless_of_isFixedLine {line : Text} (h : isFixedLine line = true) :
    Harmless profile answers line := by
  rcases Bool.or_eq_true_iff.1 h with hnil | hfixed
  · exact Or.inl (beq_iff_eq.1 hnil)
  · cases hread : readCommand (commandWords line) with
    | none =>
      rw [hread] at hfixed
      cases hfixed
    | some command =>
      rw [hread] at hfixed
      exact Or.inr ⟨command, hread, Or.inl (List.contains_iff_mem.1 hfixed)⟩

/-- The hosts that stop the generation: the resolver is asked, and cannot encode them. -/
def Encodable (answers : Text → DnsAnswer) (host : Text) : Prop :=
  Text.startswith host "*.".toList = false → IpAddress.ip_address host = none →
    ¬∃ message, answers host = .unicodeError message

theorem egressOutcome_returns_iff (profile : SandboxProfile) {host : Text} :
    (∃ outcome, egressOutcome profile (firstPort profile) (answers host) host = .ok outcome) ↔
      Encodable answers host := by
  rw [egressOutcome, Encodable]
  by_cases hwild : Text.startswith host "*.".toList = true
  · rw [if_pos hwild, hwild]
    exact iff_of_true ⟨_, rfl⟩ (by rintro ⟨⟩)
  rw [if_neg hwild, Bool.eq_false_iff.2 hwild]
  cases hresolve : resolve_host host (firstPort profile) true (answers host) with
  | error exc =>
    rcases resolve_host_error hresolve with ⟨message, rfl⟩ | ⟨hname, message, hanswer⟩
    · refine iff_of_true ⟨_, rfl⟩ fun _ hname ↦ ?_
      rintro ⟨raised, hanswer⟩
      rw [hanswer, resolve_host_unicode_error hname] at hresolve
      cases hresolve
    · rw [hanswer, resolve_host_unicode_error hname] at hresolve
      cases hresolve
      exact iff_of_false (by rintro ⟨_, ⟨⟩⟩) fun h ↦ h rfl hname ⟨message, hanswer⟩
  | ok info =>
    refine iff_of_true ?_ fun _ hname ↦ ?_
    · show ∃ outcome, (if info.is_hard_blocked = true then _ else _) = Except.ok outcome
      split
      · exact ⟨_, rfl⟩
      · split <;> exact ⟨_, rfl⟩
    · rintro ⟨raised, hanswer⟩
      rw [hanswer, resolve_host_unicode_error hname] at hresolve
      cases hresolve

/-- The generation goes through where it does for every host, and says of each what comes of it. -/
theorem egressOutcomes_ok {outcomes : List (Text × (Text ⊕ List Text))}
    (h : egressOutcomes profile answers = .ok outcomes) {host : Text} {outcome : Text ⊕ List Text} :
    (host, outcome) ∈ outcomes ↔ host ∈ profile.allowed_hosts ∧
      egressOutcome profile (firstPort profile) (answers host) host = .ok outcome := by
  have hmap := mapM_eq_ok_iff.1 h
  have hone : ∀ {host' : Text}, (do
      let outcome ← egressOutcome profile (firstPort profile) (answers host') host'
      return (host', outcome) : Except PyExc _) = .ok (host, outcome) ↔
        host' = host ∧ egressOutcome profile (firstPort profile) (answers host') host' = .ok outcome := by
    intro host'
    cases egressOutcome profile (firstPort profile) (answers host') host' with
    | error exc => exact iff_of_false (by rintro ⟨⟩) (by rintro ⟨-, ⟨⟩⟩)
    | ok o =>
      constructor
      · rintro ⟨⟩
        exact ⟨rfl, rfl⟩
      · rintro ⟨rfl, ⟨⟩⟩
        rfl
  have hmem : (host, outcome) ∈ outcomes ↔ (.ok (host, outcome) : Except PyExc _) ∈ outcomes.map .ok := by
    rw [List.mem_map]
    constructor
    · exact fun hmem ↦ ⟨_, hmem, rfl⟩
    · rintro ⟨o, hmem, ho⟩
      rwa [Except.ok.inj ho] at hmem
  rw [hmem, ← hmap, List.mem_map]
  constructor
  · rintro ⟨host', hhost, heq⟩
    obtain ⟨rfl, hok⟩ := hone.1 heq
    exact ⟨Text.mem_sortedSet.1 hhost, hok⟩
  · rintro ⟨hhost, hok⟩
    exact ⟨host, Text.mem_sortedSet.2 hhost, hone.2 ⟨rfl, hok⟩⟩

theorem egressOutcomes_returns_iff : (∃ outcomes, egressOutcomes profile answers = .ok outcomes) ↔
    ∀ host ∈ profile.allowed_hosts, Encodable answers host := by
  rw [egressOutcomes, mapM_isOk]
  constructor
  · intro h host hhost
    obtain ⟨o, ho⟩ := h host (Text.mem_sortedSet.2 hhost)
    refine (egressOutcome_returns_iff profile).1 ?_
    cases hout : egressOutcome profile (firstPort profile) (answers host) host with
    | error exc =>
      change (egressOutcome profile (firstPort profile) (answers host) host).bind _ = _ at ho
      rw [hout] at ho
      cases ho
    | ok outcome => exact ⟨outcome, rfl⟩
  · intro h host hhost
    obtain ⟨outcome, hout⟩ := (egressOutcome_returns_iff profile).2 (h host (Text.mem_sortedSet.1 hhost))
    refine ⟨(host, outcome), ?_⟩
    show (egressOutcome profile (firstPort profile) (answers host) host).bind _ = _
    rw [hout]
    rfl

/-- A script whose lines are harmless, with the line that sets the policy, does what it is for. -/
theorem faithful_of_lines (hlines : ∀ line ∈ scriptLines rules, Harmless profile answers line)
    (hpolicy : "iptables -P OUTPUT DROP".toList ∈ scriptLines rules) :
    FaithfulScript profile answers rules := by
  have hdrop : Command.policy Target.DROP ∈
      (scriptLines rules).filterMap fun line ↦ readCommand (commandWords line) :=
    List.mem_filterMap.2 ⟨_, hpolicy, by decide⟩
  have hdenies : (scriptChain rules).policy = .DROP := by
    refine Chain.policy_run hdrop fun t ht ↦ ?_
    rcases permitted_of_mem hlines ht with hfixed | ⟨ip, port, -, heq⟩
    · simp only [fixedCommands, List.mem_cons, List.not_mem_nil, or_false, reduceCtorEq,
        Command.policy.injEq] at hfixed
      exact hfixed
    · cases heq
  refine ⟨hlines, hdenies, fun p hnew haccepted ↦ ?_⟩
  have hdefault : (scriptChain rules).policy ≠ .ACCEPT := by
    rw [hdenies]
    decide
  obtain ⟨rule, hrule, htarget, hsat⟩ := Chain.exists_of_accepted hdefault haccepted
  exact accepted_of_permitted (permitted_of_mem hlines hrule) htarget hnew hsat

/-- The rules, from what comes of the hosts. -/
def scriptOf (profile : SandboxProfile) (outcomes : List (Text × (Text ⊕ List Text))) : List Text :=
  egressHeader ++ outcomes.flatMap (fun o ↦ hostLines (egressPorts profile) o.1 o.2) ++
    (if resolvedAny outcomes then []
      else ["# NOTE: no concrete destinations resolved; OUTPUT remains fully denied".toList]) ++
    ["iptables -A OUTPUT -j REJECT --reject-with icmp-admin-prohibited".toList]

theorem container_egress_rules_eq_ok_iff : container_egress_rules profile answers = .ok rules ↔
    ∃ outcomes, egressOutcomes profile answers = .ok outcomes ∧ scriptOf profile outcomes = rules := by
  rw [container_egress_rules]
  cases egressOutcomes profile answers with
  | error exc => exact iff_of_false (by rintro ⟨⟩) (by rintro ⟨_, ⟨⟩, -⟩)
  | ok outcomes =>
    constructor
    · exact fun h ↦ ⟨outcomes, rfl, Except.ok.inj h⟩
    · rintro ⟨_, ⟨⟩, rfl⟩
      rfl

/-- The lines of the script are those about the hosts, and fixed ones. -/
theorem script_harmless_iff {outcomes : List (Text × (Text ⊕ List Text))} :
    (∀ line ∈ scriptLines (scriptOf profile outcomes), Harmless profile answers line) ↔
      ∀ o ∈ outcomes, ∀ line ∈ scriptLines (hostLines (egressPorts profile) o.1 o.2),
        Harmless profile answers line := by
  have hheader : (scriptLines egressHeader).all isFixedLine = true := by decide
  have hnote : (scriptLines (if resolvedAny outcomes then []
      else ["# NOTE: no concrete destinations resolved; OUTPUT remains fully denied".toList])).all
        isFixedLine = true := by
    split
    · rfl
    · decide
  have hreject : (scriptLines ["iptables -A OUTPUT -j REJECT --reject-with icmp-admin-prohibited".toList]).all
      isFixedLine = true := by decide
  have hfixed : ∀ {lines : List Text}, lines.all isFixedLine = true →
      ∀ line ∈ lines, Harmless profile answers line :=
    fun hall line hline ↦ harmless_of_isFixedLine (List.all_eq_true.1 hall line hline)
  rw [scriptLines, scriptOf, List.flatMap_append, List.flatMap_append, List.flatMap_append]
  constructor
  · intro h o ho line hline
    refine h line (List.mem_append_left _ (List.mem_append_left _ (List.mem_append_right _ ?_)))
    obtain ⟨rule, hrule, hline⟩ := List.mem_flatMap.1 hline
    exact List.mem_flatMap.2 ⟨rule, List.mem_flatMap.2 ⟨o, ho, hrule⟩, hline⟩
  · intro h line hline
    rcases List.mem_append.1 hline with hline | hline
    · rcases List.mem_append.1 hline with hline | hline
      · rcases List.mem_append.1 hline with hline | hline
        · exact hfixed hheader line hline
        · obtain ⟨rule, hrule, hline⟩ := List.mem_flatMap.1 hline
          obtain ⟨o, ho, hrule⟩ := List.mem_flatMap.1 hrule
          exact h o ho line (List.mem_flatMap.2 ⟨rule, hrule, hline⟩)
      · exact hfixed hnote line hline
    · exact hfixed hreject line hline

/-- **The script** is generated and does what it is for exactly when the resolver can encode the hosts it is
asked about, and the lines that begin inside the texts of the hosts are harmless. -/
theorem script_faithful_iff (profile : SandboxProfile) (answers : Text → DnsAnswer) :
    (∃ rules, container_egress_rules profile answers = .ok rules ∧ FaithfulScript profile answers rules) ↔
      (∀ host ∈ profile.allowed_hosts, Encodable answers host) ∧
        ∀ host ∈ profile.allowed_hosts, ∀ line ∈ ownLines profile answers host,
          Harmless profile answers line := by
  have hreturns : (∃ outcomes, egressOutcomes profile answers = .ok outcomes) ↔
      ∀ host ∈ profile.allowed_hosts, Encodable answers host := egressOutcomes_returns_iff
  constructor
  · rintro ⟨rules, hrules, hfaithful⟩
    obtain ⟨outcomes, houtcomes, rfl⟩ := container_egress_rules_eq_ok_iff.1 hrules
    have hlines := script_harmless_iff.1 hfaithful.lines
    have hencodable := hreturns.1 ⟨outcomes, houtcomes⟩
    refine ⟨hencodable, fun host hhost ↦ ?_⟩
    obtain ⟨outcome, hout⟩ := (egressOutcome_returns_iff profile).2 (hencodable host hhost)
    have hmem := (egressOutcomes_ok houtcomes).2 ⟨hhost, hout⟩
    exact (hostLines_harmless_iff hhost hout).1 (hlines (host, outcome) hmem)
  · rintro ⟨hencodable, hown⟩
    obtain ⟨outcomes, houtcomes⟩ := hreturns.2 hencodable
    refine ⟨scriptOf profile outcomes, container_egress_rules_eq_ok_iff.2 ⟨outcomes, houtcomes, rfl⟩,
      faithful_of_lines (script_harmless_iff.2 ?_) ?_⟩
    · rintro ⟨host, outcome⟩ ho
      obtain ⟨hhost, hout⟩ := (egressOutcomes_ok houtcomes).1 ho
      exact (hostLines_harmless_iff hhost hout).2 (hown host hhost)
    · have hheader : "iptables -P OUTPUT DROP".toList ∈ scriptLines egressHeader := by decide
      obtain ⟨rule, hrule, hline⟩ := List.mem_flatMap.1 hheader
      exact List.mem_flatMap.2 ⟨rule, List.mem_append_left _ (List.mem_append_left _
        (List.mem_append_left _ hrule)), hline⟩

end

section

attribute [local instance] asciiTables

/-- A record with a wildcard that has a line break. -/
def rebootProfile : SandboxProfile :=
  .from_record { sampleRecord with allowed_hosts := ["*.x\nreboot #".toList] } {}

/-- The second line of its comment is a command. -/
theorem reboot_injected :
    ¬ ∀ (_ : UnicodeTables) (profile : SandboxProfile) (answers : Text → DnsAnswer),
      ∃ rules, container_egress_rules profile answers = .ok rules ∧
        FaithfulScript profile answers rules := by
  intro h
  obtain ⟨rules, hrules, hfaithful⟩ := h asciiTables rebootProfile fun _ ↦ sampleAnswer
  obtain ⟨outcomes, houtcomes, rfl⟩ := container_egress_rules_eq_ok_iff.1 hrules
  have hlisted : "*.x\nreboot #".toList ∈ rebootProfile.allowed_hosts := by decide +kernel
  have hout : egressOutcome rebootProfile (firstPort rebootProfile) sampleAnswer "*.x\nreboot #".toList =
      .ok (.inl ": wildcard — resolve concrete subdomains at deploy time before ACCEPT".toList) := rfl
  have hmem := (egressOutcomes_ok houtcomes).2 ⟨hlisted, hout⟩
  have hlines := script_harmless_iff.1 hfaithful.lines _ hmem
  have hline : "reboot #: wildcard — resolve concrete subdomains at deploy time before ACCEPT".toList ∈
      scriptLines (hostLines (egressPorts rebootProfile) "*.x\nreboot #".toList
        (.inl ": wildcard — resolve concrete subdomains at deploy time before ACCEPT".toList)) := by
    decide +kernel
  rcases hlines _ hline with hcomment | ⟨command, hread, -⟩
  · exact absurd hcomment (by decide +kernel)
  · have hnone : readCommand (commandWords
        "reboot #: wildcard — resolve concrete subdomains at deploy time before ACCEPT".toList) = none := by
      decide +kernel
    rw [hnone] at hread
    cases hread

end

end Sentrik
