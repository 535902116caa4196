import Nodecraft.Text.Letters

/-!
Characters of identifiers: the Unicode properties ID_Start and ID_Continue with `$`, `_` and the
two joiners, as a scripting language's names use them.
-/

set_option autoImplicit false
set_option maxRecDepth 20000

namespace Nodecraft.Text

/-- Alphabetic code points that cannot start a name. -/
def alphabeticOutsideNames : CodePointSet :=
  ⟨#[
    837, 838, 1456, 1470, 1471, 1472, 1473, 1475, 1476, 1478, 1479, 1480, 1552, 1563, 1611,
    1624, 1625, 1632, 1648, 1649, 1750, 1757, 1761, 1765, 1767, 1769, 1773, 1774, 1809, 1810,
    1840, 1856, 1958, 1969, 2070, 2072, 2075, 2084, 2085, 2088, 2089, 2093, 2260, 2272, 2275,
    2282, 2288, 2308, 2362, 2364, 2366, 2381, 2382, 2384, 2389, 2392, 2402, 2404, 2433, 2436,
    2494, 2501, 2503, 2505, 2507, 2509, 2519, 2520, 2530, 2532, 2561, 2564, 2622, 2627, 2631,
    2633, 2635, 2637, 2641, 2642, 2672, 2674, 2677, 2678, 2689, 2692, 2750, 2758, 2759, 2762,
    2763, 2765, 2786, 2788, 2810, 2813, 2817, 2820, 2878, 2885, 2887, 2889, 2891, 2893, 2902,
    2904, 2914, 2916, 2946, 2947, 3006, 3011, 3014, 3017, 3018, 3021, 3031, 3032, 3072, 3077,
    3134, 3141, 3142, 3145, 3146, 3149, 3157, 3159, 3170, 3172, 3201, 3204, 3262, 3269, 3270,
    3273, 3274, 3277, 3285, 3287, 3298, 3300, 3315, 3316, 3328, 3332, 3390, 3397, 3398, 3401,
    3402, 3405, 3415, 3416, 3426, 3428, 3457, 3460, 3535, 3541, 3542, 3543, 3544, 3552, 3570,
    3572, 3633, 3634, 3636, 3643, 3661, 3662, 3761, 3762, 3764, 3770, 3771, 3773, 3789, 3790,
    3953, 3972, 3981, 3992, 3993, 4029, 4139, 4151, 4152, 4153, 4155, 4159, 4182, 4186, 4190,
    4193, 4194, 4197, 4199, 4206, 4209, 4213, 4226, 4238, 4239, 4240, 4250, 4254, 5906, 5908,
    5938, 5940, 5970, 5972, 6002, 6004, 6070, 6089, 6313, 6314, 6432, 6444, 6448, 6457, 6679,
    6684, 6741, 6751, 6753, 6773, 6847, 6849, 6860, 6863, 6912, 6917, 6965, 6980, 7040, 7043,
    7073, 7082, 7084, 7086, 7143, 7154, 7204, 7223, 7655, 7669, 9398, 9450, 11744, 11776, 11823,
    11824, 42612, 42620, 42654, 42656, 43010, 43011, 43019, 43020, 43043, 43048, 43136, 43138,
    43188, 43204, 43205, 43206, 43263, 43264, 43302, 43307, 43335, 43347, 43392, 43396, 43444,
    43456, 43493, 43494, 43561, 43575, 43587, 43588, 43596, 43598, 43643, 43646, 43696, 43697,
    43698, 43701, 43703, 43705, 43710, 43711, 43755, 43760, 43765, 43766, 44003, 44011, 64286,
    64287, 66422, 66427, 68097, 68100, 68101, 68103, 68108, 68112, 68900, 68904, 69291, 69293,
    69632, 69635, 69688, 69702, 69747, 69749, 69760, 69763, 69808, 69817, 69826, 69827, 69888,
    69891, 69927, 69939, 69957, 69959, 70016, 70019, 70067, 70080, 70094, 70096, 70188, 70197,
    70199, 70200, 70206, 70207, 70209, 70210, 70367, 70377, 70400, 70404, 70462, 70469, 70471,
    70473, 70475, 70477, 70487, 70488, 70498, 70500, 70709, 70722, 70723, 70726, 70832, 70850,
    71087, 71094, 71096, 71103, 71132, 71134, 71216, 71231, 71232, 71233, 71339, 71350, 71453,
    71467, 71724, 71737, 71984, 71990, 71991, 71993, 71995, 71997, 72000, 72001, 72002, 72003,
    72145, 72152, 72154, 72160, 72164, 72165, 72193, 72203, 72245, 72250, 72251, 72255, 72273,
    72284, 72330, 72344, 72751, 72759, 72760, 72767, 72850, 72872, 72873, 72887, 73009, 73015,
    73018, 73019, 73020, 73022, 73023, 73026, 73027, 73028, 73031, 73032, 73098, 73103, 73104,
    73106, 73107, 73111, 73459, 73463, 73472, 73474, 73475, 73476, 73524, 73531, 73534, 73537,
    94031, 94032, 94033, 94088, 94095, 94099, 94192, 94194, 113822, 113823, 122880, 122887,
    122888, 122905, 122907, 122914, 122915, 122917, 122918, 122923, 123023, 123024, 125255,
    125256, 127280, 127306, 127312, 127338, 127344, 127370]⟩

def isIdentifierStart (c : Char) : Bool :=
  c == '$' || c == '_' || (isAlphabetic c && !alphabeticOutsideNames.contains c) ||
    c == '\u2118' || c == '\u212E' || c == '\u309B' || c == '\u309C'

/-- Word characters that never occur in names. -/
def wordPointsOutsideNames : CodePointSet :=
  ⟨#[1160, 1162, 6846, 6847, 8413, 8417, 8418, 8421, 9398, 9450, 11823, 11824, 42608, 42611,
    127280, 127306, 127312, 127338, 127344, 127370]⟩

def isIdentifierPart (c : Char) : Bool :=
  c == '$' || isIdentifierStart c || (isWordChar c && !wordPointsOutsideNames.contains c) ||
    c == '\u00B7' || c == '\u0387' || ('\u1369' ≤ c && c ≤ '\u1371') || c == '\u19DA'

end Nodecraft.Text
