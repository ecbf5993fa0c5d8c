/-! Instants and spans of time in nanoseconds. -/

namespace Turnstile

/-- An instant or a span of time in nanoseconds; instants count from the start of 1970. -/
abbrev Nanos := Int

namespace Nanos

def seconds (t : Nanos) : Int := t / 1000000000

def millis (t : Nanos) : Int := t / 1000000

def ofSeconds (n : Int) : Nanos := 1000000000 * n

def ofMillis (n : Int) : Nanos := 1000000 * n

end Nanos

def nanosPerMinute : Nanos := 60000000000

/-- The last instant a clock can show: the end of the year 262142. -/
def lastInstant : Nanos := 8210266876799999999999

end Turnstile
