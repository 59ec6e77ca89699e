import Concordance.Calendar

namespace Concordance

/-- The present second, counted from the start of the year 1970, how long a request takes, and the
zone whose time is shown. -/
structure Clock where
  seconds : Int
  elapsedNanos : Nat
  zone : Zone

namespace Clock

def now (clock : Clock) : Moment := clock.zone.moment clock.seconds

end Clock
end Concordance
