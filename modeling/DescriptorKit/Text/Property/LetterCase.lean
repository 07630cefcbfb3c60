import DescriptorKit.Text.Property.Range

/-!
Upper-case and lower-case letters of all scripts, and the maps between them.
-/
namespace DescriptorKit.Text

/-- Characters with the property Uppercase. -/
def uppercaseRanges : List (Nat × Nat) := [
  (0x41, 0x5a), (0xc0, 0xd6), (0xd8, 0xde), (0x100, 0x100), (0x102, 0x102), (0x104, 0x104),
  (0x106, 0x106), (0x108, 0x108), (0x10a, 0x10a), (0x10c, 0x10c), (0x10e, 0x10e), (0x110, 0x110),
  (0x112, 0x112), (0x114, 0x114), (0x116, 0x116), (0x118, 0x118), (0x11a, 0x11a), (0x11c, 0x11c),
  (0x11e, 0x11e), (0x120, 0x120), (0x122, 0x122), (0x124, 0x124), (0x126, 0x126), (0x128, 0x128),
  (0x12a, 0x12a), (0x12c, 0x12c), (0x12e, 0x12e), (0x130, 0x130), (0x132, 0x132), (0x134, 0x134),
  (0x136, 0x136), (0x139, 0x139), (0x13b, 0x13b), (0x13d, 0x13d), (0x13f, 0x13f), (0x141, 0x141),
  (0x143, 0x143), (0x145, 0x145), (0x147, 0x147), (0x14a, 0x14a), (0x14c, 0x14c), (0x14e, 0x14e),
  (0x150, 0x150), (0x152, 0x152), (0x154, 0x154), (0x156, 0x156), (0x158, 0x158), (0x15a, 0x15a),
  (0x15c, 0x15c), (0x15e, 0x15e), (0x160, 0x160), (0x162, 0x162), (0x164, 0x164), (0x166, 0x166),
  (0x168, 0x168), (0x16a, 0x16a), (0x16c, 0x16c), (0x16e, 0x16e), (0x170, 0x170), (0x172, 0x172),
  (0x174, 0x174), (0x176, 0x176), (0x178, 0x179), (0x17b, 0x17b), (0x17d, 0x17d), (0x181, 0x182),
  (0x184, 0x184), (0x186, 0x187), (0x189, 0x18b), (0x18e, 0x191), (0x193, 0x194), (0x196, 0x198),
  (0x19c, 0x19d), (0x19f, 0x1a0), (0x1a2, 0x1a2), (0x1a4, 0x1a4), (0x1a6, 0x1a7), (0x1a9, 0x1a9),
  (0x1ac, 0x1ac), (0x1ae, 0x1af), (0x1b1, 0x1b3), (0x1b5, 0x1b5), (0x1b7, 0x1b8), (0x1bc, 0x1bc),
  (0x1c4, 0x1c4), (0x1c7, 0x1c7), (0x1ca, 0x1ca), (0x1cd, 0x1cd), (0x1cf, 0x1cf), (0x1d1, 0x1d1),
  (0x1d3, 0x1d3), (0x1d5, 0x1d5), (0x1d7, 0x1d7), (0x1d9, 0x1d9), (0x1db, 0x1db), (0x1de, 0x1de),
  (0x1e0, 0x1e0), (0x1e2, 0x1e2), (0x1e4, 0x1e4), (0x1e6, 0x1e6), (0x1e8, 0x1e8), (0x1ea, 0x1ea),
  (0x1ec, 0x1ec), (0x1ee, 0x1ee), (0x1f1, 0x1f1), (0x1f4, 0x1f4), (0x1f6, 0x1f8), (0x1fa, 0x1fa),
  (0x1fc, 0x1fc), (0x1fe, 0x1fe), (0x200, 0x200), (0x202, 0x202), (0x204, 0x204), (0x206, 0x206),
  (0x208, 0x208), (0x20a, 0x20a), (0x20c, 0x20c), (0x20e, 0x20e), (0x210, 0x210), (0x212, 0x212),
  (0x214, 0x214), (0x216, 0x216), (0x218, 0x218), (0x21a, 0x21a), (0x21c, 0x21c), (0x21e, 0x21e),
  (0x220, 0x220), (0x222, 0x222), (0x224, 0x224), (0x226, 0x226), (0x228, 0x228), (0x22a, 0x22a),
  (0x22c, 0x22c), (0x22e, 0x22e), (0x230, 0x230), (0x232, 0x232), (0x23a, 0x23b), (0x23d, 0x23e),
  (0x241, 0x241), (0x243, 0x246), (0x248, 0x248), (0x24a, 0x24a), (0x24c, 0x24c), (0x24e, 0x24e),
  (0x370, 0x370), (0x372, 0x372), (0x376, 0x376), (0x37f, 0x37f), (0x386, 0x386), (0x388, 0x38a),
  (0x38c, 0x38c), (0x38e, 0x38f), (0x391, 0x3a1), (0x3a3, 0x3ab), (0x3cf, 0x3cf), (0x3d2, 0x3d4),
  (0x3d8, 0x3d8), (0x3da, 0x3da), (0x3dc, 0x3dc), (0x3de, 0x3de), (0x3e0, 0x3e0), (0x3e2, 0x3e2),
  (0x3e4, 0x3e4), (0x3e6, 0x3e6), (0x3e8, 0x3e8), (0x3ea, 0x3ea), (0x3ec, 0x3ec), (0x3ee, 0x3ee),
  (0x3f4, 0x3f4), (0x3f7, 0x3f7), (0x3f9, 0x3fa), (0x3fd, 0x42f), (0x460, 0x460), (0x462, 0x462),
  (0x464, 0x464), (0x466, 0x466), (0x468, 0x468), (0x46a, 0x46a), (0x46c, 0x46c), (0x46e, 0x46e),
  (0x470, 0x470), (0x472, 0x472), (0x474, 0x474), (0x476, 0x476), (0x478, 0x478), (0x47a, 0x47a),
  (0x47c, 0x47c), (0x47e, 0x47e), (0x480, 0x480), (0x48a, 0x48a), (0x48c, 0x48c), (0x48e, 0x48e),
  (0x490, 0x490), (0x492, 0x492), (0x494, 0x494), (0x496, 0x496), (0x498, 0x498), (0x49a, 0x49a),
  (0x49c, 0x49c), (0x49e, 0x49e), (0x4a0, 0x4a0), (0x4a2, 0x4a2), (0x4a4, 0x4a4), (0x4a6, 0x4a6),
  (0x4a8, 0x4a8), (0x4aa, 0x4aa), (0x4ac, 0x4ac), (0x4ae, 0x4ae), (0x4b0, 0x4b0), (0x4b2, 0x4b2),
  (0x4b4, 0x4b4), (0x4b6, 0x4b6), (0x4b8, 0x4b8), (0x4ba, 0x4ba), (0x4bc, 0x4bc), (0x4be, 0x4be),
  (0x4c0, 0x4c1), (0x4c3, 0x4c3), (0x4c5, 0x4c5), (0x4c7, 0x4c7), (0x4c9, 0x4c9), (0x4cb, 0x4cb),
  (0x4cd, 0x4cd), (0x4d0, 0x4d0), (0x4d2, 0x4d2), (0x4d4, 0x4d4), (0x4d6, 0x4d6), (0x4d8, 0x4d8),
  (0x4da, 0x4da), (0x4dc, 0x4dc), (0x4de, 0x4de), (0x4e0, 0x4e0), (0x4e2, 0x4e2), (0x4e4, 0x4e4),
  (0x4e6, 0x4e6), (0x4e8, 0x4e8), (0x4ea, 0x4ea), (0x4ec, 0x4ec), (0x4ee, 0x4ee), (0x4f0, 0x4f0),
  (0x4f2, 0x4f2), (0x4f4, 0x4f4), (0x4f6, 0x4f6), (0x4f8, 0x4f8), (0x4fa, 0x4fa), (0x4fc, 0x4fc),
  (0x4fe, 0x4fe), (0x500, 0x500), (0x502, 0x502), (0x504, 0x504), (0x506, 0x506), (0x508, 0x508),
  (0x50a, 0x50a), (0x50c, 0x50c), (0x50e, 0x50e), (0x510, 0x510), (0x512, 0x512), (0x514, 0x514),
  (0x516, 0x516), (0x518, 0x518), (0x51a, 0x51a), (0x51c, 0x51c), (0x51e, 0x51e), (0x520, 0x520),
  (0x522, 0x522), (0x524, 0x524), (0x526, 0x526), (0x528, 0x528), (0x52a, 0x52a), (0x52c, 0x52c),
  (0x52e, 0x52e), (0x531, 0x556), (0x10a0, 0x10c5), (0x10c7, 0x10c7), (0x10cd, 0x10cd),
  (0x13a0, 0x13f5), (0x1c89, 0x1c89), (0x1c90, 0x1cba), (0x1cbd, 0x1cbf), (0x1e00, 0x1e00),
  (0x1e02, 0x1e02), (0x1e04, 0x1e04), (0x1e06, 0x1e06), (0x1e08, 0x1e08), (0x1e0a, 0x1e0a),
  (0x1e0c, 0x1e0c), (0x1e0e, 0x1e0e), (0x1e10, 0x1e10), (0x1e12, 0x1e12), (0x1e14, 0x1e14),
  (0x1e16, 0x1e16), (0x1e18, 0x1e18), (0x1e1a, 0x1e1a), (0x1e1c, 0x1e1c), (0x1e1e, 0x1e1e),
  (0x1e20, 0x1e20), (0x1e22, 0x1e22), (0x1e24, 0x1e24), (0x1e26, 0x1e26), (0x1e28, 0x1e28),
  (0x1e2a, 0x1e2a), (0x1e2c, 0x1e2c), (0x1e2e, 0x1e2e), (0x1e30, 0x1e30), (0x1e32, 0x1e32),
  (0x1e34, 0x1e34), (0x1e36, 0x1e36), (0x1e38, 0x1e38), (0x1e3a, 0x1e3a), (0x1e3c, 0x1e3c),
  (0x1e3e, 0x1e3e), (0x1e40, 0x1e40), (0x1e42, 0x1e42), (0x1e44, 0x1e44), (0x1e46, 0x1e46),
  (0x1e48, 0x1e48), (0x1e4a, 0x1e4a), (0x1e4c, 0x1e4c), (0x1e4e, 0x1e4e), (0x1e50, 0x1e50),
  (0x1e52, 0x1e52), (0x1e54, 0x1e54), (0x1e56, 0x1e56), (0x1e58, 0x1e58), (0x1e5a, 0x1e5a),
  (0x1e5c, 0x1e5c), (0x1e5e, 0x1e5e), (0x1e60, 0x1e60), (0x1e62, 0x1e62), (0x1e64, 0x1e64),
  (0x1e66, 0x1e66), (0x1e68, 0x1e68), (0x1e6a, 0x1e6a), (0x1e6c, 0x1e6c), (0x1e6e, 0x1e6e),
  (0x1e70, 0x1e70), (0x1e72, 0x1e72), (0x1e74, 0x1e74), (0x1e76, 0x1e76), (0x1e78, 0x1e78),
  (0x1e7a, 0x1e7a), (0x1e7c, 0x1e7c), (0x1e7e, 0x1e7e), (0x1e80, 0x1e80), (0x1e82, 0x1e82),
  (0x1e84, 0x1e84), (0x1e86, 0x1e86), (0x1e88, 0x1e88), (0x1e8a, 0x1e8a), (0x1e8c, 0x1e8c),
  (0x1e8e, 0x1e8e), (0x1e90, 0x1e90), (0x1e92, 0x1e92), (0x1e94, 0x1e94), (0x1e9e, 0x1e9e),
  (0x1ea0, 0x1ea0), (0x1ea2, 0x1ea2), (0x1ea4, 0x1ea4), (0x1ea6, 0x1ea6), (0x1ea8, 0x1ea8),
  (0x1eaa, 0x1eaa), (0x1eac, 0x1eac), (0x1eae, 0x1eae), (0x1eb0, 0x1eb0), (0x1eb2, 0x1eb2),
  (0x1eb4, 0x1eb4), (0x1eb6, 0x1eb6), (0x1eb8, 0x1eb8), (0x1eba, 0x1eba), (0x1ebc, 0x1ebc),
  (0x1ebe, 0x1ebe), (0x1ec0, 0x1ec0), (0x1ec2, 0x1ec2), (0x1ec4, 0x1ec4), (0x1ec6, 0x1ec6),
  (0x1ec8, 0x1ec8), (0x1eca, 0x1eca), (0x1ecc, 0x1ecc), (0x1ece, 0x1ece), (0x1ed0, 0x1ed0),
  (0x1ed2, 0x1ed2), (0x1ed4, 0x1ed4), (0x1ed6, 0x1ed6), (0x1ed8, 0x1ed8), (0x1eda, 0x1eda),
  (0x1edc, 0x1edc), (0x1ede, 0x1ede), (0x1ee0, 0x1ee0), (0x1ee2, 0x1ee2), (0x1ee4, 0x1ee4),
  (0x1ee6, 0x1ee6), (0x1ee8, 0x1ee8), (0x1eea, 0x1eea), (0x1eec, 0x1eec), (0x1eee, 0x1eee),
  (0x1ef0, 0x1ef0), (0x1ef2, 0x1ef2), (0x1ef4, 0x1ef4), (0x1ef6, 0x1ef6), (0x1ef8, 0x1ef8),
  (0x1efa, 0x1efa), (0x1efc, 0x1efc), (0x1efe, 0x1efe), (0x1f08, 0x1f0f), (0x1f18, 0x1f1d),
  (0x1f28, 0x1f2f), (0x1f38, 0x1f3f), (0x1f48, 0x1f4d), (0x1f59, 0x1f59), (0x1f5b, 0x1f5b),
  (0x1f5d, 0x1f5d), (0x1f5f, 0x1f5f), (0x1f68, 0x1f6f), (0x1fb8, 0x1fbb), (0x1fc8, 0x1fcb),
  (0x1fd8, 0x1fdb), (0x1fe8, 0x1fec), (0x1ff8, 0x1ffb), (0x2102, 0x2102), (0x2107, 0x2107),
  (0x210b, 0x210d), (0x2110, 0x2112), (0x2115, 0x2115), (0x2119, 0x211d), (0x2124, 0x2124),
  (0x2126, 0x2126), (0x2128, 0x2128), (0x212a, 0x212d), (0x2130, 0x2133), (0x213e, 0x213f),
  (0x2145, 0x2145), (0x2160, 0x216f), (0x2183, 0x2183), (0x24b6, 0x24cf), (0x2c00, 0x2c2f),
  (0x2c60, 0x2c60), (0x2c62, 0x2c64), (0x2c67, 0x2c67), (0x2c69, 0x2c69), (0x2c6b, 0x2c6b),
  (0x2c6d, 0x2c70), (0x2c72, 0x2c72), (0x2c75, 0x2c75), (0x2c7e, 0x2c80), (0x2c82, 0x2c82),
  (0x2c84, 0x2c84), (0x2c86, 0x2c86), (0x2c88, 0x2c88), (0x2c8a, 0x2c8a), (0x2c8c, 0x2c8c),
  (0x2c8e, 0x2c8e), (0x2c90, 0x2c90), (0x2c92, 0x2c92), (0x2c94, 0x2c94), (0x2c96, 0x2c96),
  (0x2c98, 0x2c98), (0x2c9a, 0x2c9a), (0x2c9c, 0x2c9c), (0x2c9e, 0x2c9e), (0x2ca0, 0x2ca0),
  (0x2ca2, 0x2ca2), (0x2ca4, 0x2ca4), (0x2ca6, 0x2ca6), (0x2ca8, 0x2ca8), (0x2caa, 0x2caa),
  (0x2cac, 0x2cac), (0x2cae, 0x2cae), (0x2cb0, 0x2cb0), (0x2cb2, 0x2cb2), (0x2cb4, 0x2cb4),
  (0x2cb6, 0x2cb6), (0x2cb8, 0x2cb8), (0x2cba, 0x2cba), (0x2cbc, 0x2cbc), (0x2cbe, 0x2cbe),
  (0x2cc0, 0x2cc0), (0x2cc2, 0x2cc2), (0x2cc4, 0x2cc4), (0x2cc6, 0x2cc6), (0x2cc8, 0x2cc8),
  (0x2cca, 0x2cca), (0x2ccc, 0x2ccc), (0x2cce, 0x2cce), (0x2cd0, 0x2cd0), (0x2cd2, 0x2cd2),
  (0x2cd4, 0x2cd4), (0x2cd6, 0x2cd6), (0x2cd8, 0x2cd8), (0x2cda, 0x2cda), (0x2cdc, 0x2cdc),
  (0x2cde, 0x2cde), (0x2ce0, 0x2ce0), (0x2ce2, 0x2ce2), (0x2ceb, 0x2ceb), (0x2ced, 0x2ced),
  (0x2cf2, 0x2cf2), (0xa640, 0xa640), (0xa642, 0xa642), (0xa644, 0xa644), (0xa646, 0xa646),
  (0xa648, 0xa648), (0xa64a, 0xa64a), (0xa64c, 0xa64c), (0xa64e, 0xa64e), (0xa650, 0xa650),
  (0xa652, 0xa652), (0xa654, 0xa654), (0xa656, 0xa656), (0xa658, 0xa658), (0xa65a, 0xa65a),
  (0xa65c, 0xa65c), (0xa65e, 0xa65e), (0xa660, 0xa660), (0xa662, 0xa662), (0xa664, 0xa664),
  (0xa666, 0xa666), (0xa668, 0xa668), (0xa66a, 0xa66a), (0xa66c, 0xa66c), (0xa680, 0xa680),
  (0xa682, 0xa682), (0xa684, 0xa684), (0xa686, 0xa686), (0xa688, 0xa688), (0xa68a, 0xa68a),
  (0xa68c, 0xa68c), (0xa68e, 0xa68e), (0xa690, 0xa690), (0xa692, 0xa692), (0xa694, 0xa694),
  (0xa696, 0xa696), (0xa698, 0xa698), (0xa69a, 0xa69a), (0xa722, 0xa722), (0xa724, 0xa724),
  (0xa726, 0xa726), (0xa728, 0xa728), (0xa72a, 0xa72a), (0xa72c, 0xa72c), (0xa72e, 0xa72e),
  (0xa732, 0xa732), (0xa734, 0xa734), (0xa736, 0xa736), (0xa738, 0xa738), (0xa73a, 0xa73a),
  (0xa73c, 0xa73c), (0xa73e, 0xa73e), (0xa740, 0xa740), (0xa742, 0xa742), (0xa744, 0xa744),
  (0xa746, 0xa746), (0xa748, 0xa748), (0xa74a, 0xa74a), (0xa74c, 0xa74c), (0xa74e, 0xa74e),
  (0xa750, 0xa750), (0xa752, 0xa752), (0xa754, 0xa754), (0xa756, 0xa756), (0xa758, 0xa758),
  (0xa75a, 0xa75a), (0xa75c, 0xa75c), (0xa75e, 0xa75e), (0xa760, 0xa760), (0xa762, 0xa762),
  (0xa764, 0xa764), (0xa766, 0xa766), (0xa768, 0xa768), (0xa76a, 0xa76a), (0xa76c, 0xa76c),
  (0xa76e, 0xa76e), (0xa779, 0xa779), (0xa77b, 0xa77b), (0xa77d, 0xa77e), (0xa780, 0xa780),
  (0xa782, 0xa782), (0xa784, 0xa784), (0xa786, 0xa786), (0xa78b, 0xa78b), (0xa78d, 0xa78d),
  (0xa790, 0xa790), (0xa792, 0xa792), (0xa796, 0xa796), (0xa798, 0xa798), (0xa79a, 0xa79a),
  (0xa79c, 0xa79c), (0xa79e, 0xa79e), (0xa7a0, 0xa7a0), (0xa7a2, 0xa7a2), (0xa7a4, 0xa7a4),
  (0xa7a6, 0xa7a6), (0xa7a8, 0xa7a8), (0xa7aa, 0xa7ae), (0xa7b0, 0xa7b4), (0xa7b6, 0xa7b6),
  (0xa7b8, 0xa7b8), (0xa7ba, 0xa7ba), (0xa7bc, 0xa7bc), (0xa7be, 0xa7be), (0xa7c0, 0xa7c0),
  (0xa7c2, 0xa7c2), (0xa7c4, 0xa7c7), (0xa7c9, 0xa7c9), (0xa7cb, 0xa7cc), (0xa7ce, 0xa7ce),
  (0xa7d0, 0xa7d0), (0xa7d2, 0xa7d2), (0xa7d4, 0xa7d4), (0xa7d6, 0xa7d6), (0xa7d8, 0xa7d8),
  (0xa7da, 0xa7da), (0xa7dc, 0xa7dc), (0xa7f5, 0xa7f5), (0xff21, 0xff3a), (0x10400, 0x10427),
  (0x104b0, 0x104d3), (0x10570, 0x1057a), (0x1057c, 0x1058a), (0x1058c, 0x10592),
  (0x10594, 0x10595), (0x10c80, 0x10cb2), (0x10d50, 0x10d65), (0x118a0, 0x118bf),
  (0x16e40, 0x16e5f), (0x16ea0, 0x16eb8), (0x1d400, 0x1d419), (0x1d434, 0x1d44d),
  (0x1d468, 0x1d481), (0x1d49c, 0x1d49c), (0x1d49e, 0x1d49f), (0x1d4a2, 0x1d4a2),
  (0x1d4a5, 0x1d4a6), (0x1d4a9, 0x1d4ac), (0x1d4ae, 0x1d4b5), (0x1d4d0, 0x1d4e9),
  (0x1d504, 0x1d505), (0x1d507, 0x1d50a), (0x1d50d, 0x1d514), (0x1d516, 0x1d51c),
  (0x1d538, 0x1d539), (0x1d53b, 0x1d53e), (0x1d540, 0x1d544), (0x1d546, 0x1d546),
  (0x1d54a, 0x1d550), (0x1d56c, 0x1d585), (0x1d5a0, 0x1d5b9), (0x1d5d4, 0x1d5ed),
  (0x1d608, 0x1d621), (0x1d63c, 0x1d655), (0x1d670, 0x1d689), (0x1d6a8, 0x1d6c0),
  (0x1d6e2, 0x1d6fa), (0x1d71c, 0x1d734), (0x1d756, 0x1d76e), (0x1d790, 0x1d7a8),
  (0x1d7ca, 0x1d7ca), (0x1e900, 0x1e921), (0x1f130, 0x1f149), (0x1f150, 0x1f169),
  (0x1f170, 0x1f189)]

/-- Characters with the property Lowercase. -/
def lowercaseRanges : List (Nat × Nat) := [
  (0x61, 0x7a), (0xaa, 0xaa), (0xb5, 0xb5), (0xba, 0xba), (0xdf, 0xf6), (0xf8, 0xff),
  (0x101, 0x101), (0x103, 0x103), (0x105, 0x105), (0x107, 0x107), (0x109, 0x109), (0x10b, 0x10b),
  (0x10d, 0x10d), (0x10f, 0x10f), (0x111, 0x111), (0x113, 0x113), (0x115, 0x115), (0x117, 0x117),
  (0x119, 0x119), (0x11b, 0x11b), (0x11d, 0x11d), (0x11f, 0x11f), (0x121, 0x121), (0x123, 0x123),
  (0x125, 0x125), (0x127, 0x127), (0x129, 0x129), (0x12b, 0x12b), (0x12d, 0x12d), (0x12f, 0x12f),
  (0x131, 0x131), (0x133, 0x133), (0x135, 0x135), (0x137, 0x138), (0x13a, 0x13a), (0x13c, 0x13c),
  (0x13e, 0x13e), (0x140, 0x140), (0x142, 0x142), (0x144, 0x144), (0x146, 0x146), (0x148, 0x149),
  (0x14b, 0x14b), (0x14d, 0x14d), (0x14f, 0x14f), (0x151, 0x151), (0x153, 0x153), (0x155, 0x155),
  (0x157, 0x157), (0x159, 0x159), (0x15b, 0x15b), (0x15d, 0x15d), (0x15f, 0x15f), (0x161, 0x161),
  (0x163, 0x163), (0x165, 0x165), (0x167, 0x167), (0x169, 0x169), (0x16b, 0x16b), (0x16d, 0x16d),
  (0x16f, 0x16f), (0x171, 0x171), (0x173, 0x173), (0x175, 0x175), (0x177, 0x177), (0x17a, 0x17a),
  (0x17c, 0x17c), (0x17e, 0x180), (0x183, 0x183), (0x185, 0x185), (0x188, 0x188), (0x18c, 0x18d),
  (0x192, 0x192), (0x195, 0x195), (0x199, 0x19b), (0x19e, 0x19e), (0x1a1, 0x1a1), (0x1a3, 0x1a3),
  (0x1a5, 0x1a5), (0x1a8, 0x1a8), (0x1aa, 0x1ab), (0x1ad, 0x1ad), (0x1b0, 0x1b0), (0x1b4, 0x1b4),
  (0x1b6, 0x1b6), (0x1b9, 0x1ba), (0x1bd, 0x1bf), (0x1c6, 0x1c6), (0x1c9, 0x1c9), (0x1cc, 0x1cc),
  (0x1ce, 0x1ce), (0x1d0, 0x1d0), (0x1d2, 0x1d2), (0x1d4, 0x1d4), (0x1d6, 0x1d6), (0x1d8, 0x1d8),
  (0x1da, 0x1da), (0x1dc, 0x1dd), (0x1df, 0x1df), (0x1e1, 0x1e1), (0x1e3, 0x1e3), (0x1e5, 0x1e5),
  (0x1e7, 0x1e7), (0x1e9, 0x1e9), (0x1eb, 0x1eb), (0x1ed, 0x1ed), (0x1ef, 0x1f0), (0x1f3, 0x1f3),
  (0x1f5, 0x1f5), (0x1f9, 0x1f9), (0x1fb, 0x1fb), (0x1fd, 0x1fd), (0x1ff, 0x1ff), (0x201, 0x201),
  (0x203, 0x203), (0x205, 0x205), (0x207, 0x207), (0x209, 0x209), (0x20b, 0x20b), (0x20d, 0x20d),
  (0x20f, 0x20f), (0x211, 0x211), (0x213, 0x213), (0x215, 0x215), (0x217, 0x217), (0x219, 0x219),
  (0x21b, 0x21b), (0x21d, 0x21d), (0x21f, 0x21f), (0x221, 0x221), (0x223, 0x223), (0x225, 0x225),
  (0x227, 0x227), (0x229, 0x229), (0x22b, 0x22b), (0x22d, 0x22d), (0x22f, 0x22f), (0x231, 0x231),
  (0x233, 0x239), (0x23c, 0x23c), (0x23f, 0x240), (0x242, 0x242), (0x247, 0x247), (0x249, 0x249),
  (0x24b, 0x24b), (0x24d, 0x24d), (0x24f, 0x293), (0x296, 0x2b8), (0x2c0, 0x2c1), (0x2e0, 0x2e4),
  (0x345, 0x345), (0x371, 0x371), (0x373, 0x373), (0x377, 0x377), (0x37a, 0x37d), (0x390, 0x390),
  (0x3ac, 0x3ce), (0x3d0, 0x3d1), (0x3d5, 0x3d7), (0x3d9, 0x3d9), (0x3db, 0x3db), (0x3dd, 0x3dd),
  (0x3df, 0x3df), (0x3e1, 0x3e1), (0x3e3, 0x3e3), (0x3e5, 0x3e5), (0x3e7, 0x3e7), (0x3e9, 0x3e9),
  (0x3eb, 0x3eb), (0x3ed, 0x3ed), (0x3ef, 0x3f3), (0x3f5, 0x3f5), (0x3f8, 0x3f8), (0x3fb, 0x3fc),
  (0x430, 0x45f), (0x461, 0x461), (0x463, 0x463), (0x465, 0x465), (0x467, 0x467), (0x469, 0x469),
  (0x46b, 0x46b), (0x46d, 0x46d), (0x46f, 0x46f), (0x471, 0x471), (0x473, 0x473), (0x475, 0x475),
  (0x477, 0x477), (0x479, 0x479), (0x47b, 0x47b), (0x47d, 0x47d), (0x47f, 0x47f), (0x481, 0x481),
  (0x48b, 0x48b), (0x48d, 0x48d), (0x48f, 0x48f), (0x491, 0x491), (0x493, 0x493), (0x495, 0x495),
  (0x497, 0x497), (0x499, 0x499), (0x49b, 0x49b), (0x49d, 0x49d), (0x49f, 0x49f), (0x4a1, 0x4a1),
  (0x4a3, 0x4a3), (0x4a5, 0x4a5), (0x4a7, 0x4a7), (0x4a9, 0x4a9), (0x4ab, 0x4ab), (0x4ad, 0x4ad),
  (0x4af, 0x4af), (0x4b1, 0x4b1), (0x4b3, 0x4b3), (0x4b5, 0x4b5), (0x4b7, 0x4b7), (0x4b9, 0x4b9),
  (0x4bb, 0x4bb), (0x4bd, 0x4bd), (0x4bf, 0x4bf), (0x4c2, 0x4c2), (0x4c4, 0x4c4), (0x4c6, 0x4c6),
  (0x4c8, 0x4c8), (0x4ca, 0x4ca), (0x4cc, 0x4cc), (0x4ce, 0x4cf), (0x4d1, 0x4d1), (0x4d3, 0x4d3),
  (0x4d5, 0x4d5), (0x4d7, 0x4d7), (0x4d9, 0x4d9), (0x4db, 0x4db), (0x4dd, 0x4dd), (0x4df, 0x4df),
  (0x4e1, 0x4e1), (0x4e3, 0x4e3), (0x4e5, 0x4e5), (0x4e7, 0x4e7), (0x4e9, 0x4e9), (0x4eb, 0x4eb),
  (0x4ed, 0x4ed), (0x4ef, 0x4ef), (0x4f1, 0x4f1), (0x4f3, 0x4f3), (0x4f5, 0x4f5), (0x4f7, 0x4f7),
  (0x4f9, 0x4f9), (0x4fb, 0x4fb), (0x4fd, 0x4fd), (0x4ff, 0x4ff), (0x501, 0x501), (0x503, 0x503),
  (0x505, 0x505), (0x507, 0x507), (0x509, 0x509), (0x50b, 0x50b), (0x50d, 0x50d), (0x50f, 0x50f),
  (0x511, 0x511), (0x513, 0x513), (0x515, 0x515), (0x517, 0x517), (0x519, 0x519), (0x51b, 0x51b),
  (0x51d, 0x51d), (0x51f, 0x51f), (0x521, 0x521), (0x523, 0x523), (0x525, 0x525), (0x527, 0x527),
  (0x529, 0x529), (0x52b, 0x52b), (0x52d, 0x52d), (0x52f, 0x52f), (0x560, 0x588), (0x10d0, 0x10fa),
  (0x10fc, 0x10ff), (0x13f8, 0x13fd), (0x1c80, 0x1c88), (0x1c8a, 0x1c8a), (0x1d00, 0x1dbf),
  (0x1e01, 0x1e01), (0x1e03, 0x1e03), (0x1e05, 0x1e05), (0x1e07, 0x1e07), (0x1e09, 0x1e09),
  (0x1e0b, 0x1e0b), (0x1e0d, 0x1e0d), (0x1e0f, 0x1e0f), (0x1e11, 0x1e11), (0x1e13, 0x1e13),
  (0x1e15, 0x1e15), (0x1e17, 0x1e17), (0x1e19, 0x1e19), (0x1e1b, 0x1e1b), (0x1e1d, 0x1e1d),
  (0x1e1f, 0x1e1f), (0x1e21, 0x1e21), (0x1e23, 0x1e23), (0x1e25, 0x1e25), (0x1e27, 0x1e27),
  (0x1e29, 0x1e29), (0x1e2b, 0x1e2b), (0x1e2d, 0x1e2d), (0x1e2f, 0x1e2f), (0x1e31, 0x1e31),
  (0x1e33, 0x1e33), (0x1e35, 0x1e35), (0x1e37, 0x1e37), (0x1e39, 0x1e39), (0x1e3b, 0x1e3b),
  (0x1e3d, 0x1e3d), (0x1e3f, 0x1e3f), (0x1e41, 0x1e41), (0x1e43, 0x1e43), (0x1e45, 0x1e45),
  (0x1e47, 0x1e47), (0x1e49, 0x1e49), (0x1e4b, 0x1e4b), (0x1e4d, 0x1e4d), (0x1e4f, 0x1e4f),
  (0x1e51, 0x1e51), (0x1e53, 0x1e53), (0x1e55, 0x1e55), (0x1e57, 0x1e57), (0x1e59, 0x1e59),
  (0x1e5b, 0x1e5b), (0x1e5d, 0x1e5d), (0x1e5f, 0x1e5f), (0x1e61, 0x1e61), (0x1e63, 0x1e63),
  (0x1e65, 0x1e65), (0x1e67, 0x1e67), (0x1e69, 0x1e69), (0x1e6b, 0x1e6b), (0x1e6d, 0x1e6d),
  (0x1e6f, 0x1e6f), (0x1e71, 0x1e71), (0x1e73, 0x1e73), (0x1e75, 0x1e75), (0x1e77, 0x1e77),
  (0x1e79, 0x1e79), (0x1e7b, 0x1e7b), (0x1e7d, 0x1e7d), (0x1e7f, 0x1e7f), (0x1e81, 0x1e81),
  (0x1e83, 0x1e83), (0x1e85, 0x1e85), (0x1e87, 0x1e87), (0x1e89, 0x1e89), (0x1e8b, 0x1e8b),
  (0x1e8d, 0x1e8d), (0x1e8f, 0x1e8f), (0x1e91, 0x1e91), (0x1e93, 0x1e93), (0x1e95, 0x1e9d),
  (0x1e9f, 0x1e9f), (0x1ea1, 0x1ea1), (0x1ea3, 0x1ea3), (0x1ea5, 0x1ea5), (0x1ea7, 0x1ea7),
  (0x1ea9, 0x1ea9), (0x1eab, 0x1eab), (0x1ead, 0x1ead), (0x1eaf, 0x1eaf), (0x1eb1, 0x1eb1),
  (0x1eb3, 0x1eb3), (0x1eb5, 0x1eb5), (0x1eb7, 0x1eb7), (0x1eb9, 0x1eb9), (0x1ebb, 0x1ebb),
  (0x1ebd, 0x1ebd), (0x1ebf, 0x1ebf), (0x1ec1, 0x1ec1), (0x1ec3, 0x1ec3), (0x1ec5, 0x1ec5),
  (0x1ec7, 0x1ec7), (0x1ec9, 0x1ec9), (0x1ecb, 0x1ecb), (0x1ecd, 0x1ecd), (0x1ecf, 0x1ecf),
  (0x1ed1, 0x1ed1), (0x1ed3, 0x1ed3), (0x1ed5, 0x1ed5), (0x1ed7, 0x1ed7), (0x1ed9, 0x1ed9),
  (0x1edb, 0x1edb), (0x1edd, 0x1edd), (0x1edf, 0x1edf), (0x1ee1, 0x1ee1), (0x1ee3, 0x1ee3),
  (0x1ee5, 0x1ee5), (0x1ee7, 0x1ee7), (0x1ee9, 0x1ee9), (0x1eeb, 0x1eeb), (0x1eed, 0x1eed),
  (0x1eef, 0x1eef), (0x1ef1, 0x1ef1), (0x1ef3, 0x1ef3), (0x1ef5, 0x1ef5), (0x1ef7, 0x1ef7),
  (0x1ef9, 0x1ef9), (0x1efb, 0x1efb), (0x1efd, 0x1efd), (0x1eff, 0x1f07), (0x1f10, 0x1f15),
  (0x1f20, 0x1f27), (0x1f30, 0x1f37), (0x1f40, 0x1f45), (0x1f50, 0x1f57), (0x1f60, 0x1f67),
  (0x1f70, 0x1f7d), (0x1f80, 0x1f87), (0x1f90, 0x1f97), (0x1fa0, 0x1fa7), (0x1fb0, 0x1fb4),
  (0x1fb6, 0x1fb7), (0x1fbe, 0x1fbe), (0x1fc2, 0x1fc4), (0x1fc6, 0x1fc7), (0x1fd0, 0x1fd3),
  (0x1fd6, 0x1fd7), (0x1fe0, 0x1fe7), (0x1ff2, 0x1ff4), (0x1ff6, 0x1ff7), (0x2071, 0x2071),
  (0x207f, 0x207f), (0x2090, 0x209c), (0x210a, 0x210a), (0x210e, 0x210f), (0x2113, 0x2113),
  (0x212f, 0x212f), (0x2134, 0x2134), (0x2139, 0x2139), (0x213c, 0x213d), (0x2146, 0x2149),
  (0x214e, 0x214e), (0x2170, 0x217f), (0x2184, 0x2184), (0x24d0, 0x24e9), (0x2c30, 0x2c5f),
  (0x2c61, 0x2c61), (0x2c65, 0x2c66), (0x2c68, 0x2c68), (0x2c6a, 0x2c6a), (0x2c6c, 0x2c6c),
  (0x2c71, 0x2c71), (0x2c73, 0x2c74), (0x2c76, 0x2c7d), (0x2c81, 0x2c81), (0x2c83, 0x2c83),
  (0x2c85, 0x2c85), (0x2c87, 0x2c87), (0x2c89, 0x2c89), (0x2c8b, 0x2c8b), (0x2c8d, 0x2c8d),
  (0x2c8f, 0x2c8f), (0x2c91, 0x2c91), (0x2c93, 0x2c93), (0x2c95, 0x2c95), (0x2c97, 0x2c97),
  (0x2c99, 0x2c99), (0x2c9b, 0x2c9b), (0x2c9d, 0x2c9d), (0x2c9f, 0x2c9f), (0x2ca1, 0x2ca1),
  (0x2ca3, 0x2ca3), (0x2ca5, 0x2ca5), (0x2ca7, 0x2ca7), (0x2ca9, 0x2ca9), (0x2cab, 0x2cab),
  (0x2cad, 0x2cad), (0x2caf, 0x2caf), (0x2cb1, 0x2cb1), (0x2cb3, 0x2cb3), (0x2cb5, 0x2cb5),
  (0x2cb7, 0x2cb7), (0x2cb9, 0x2cb9), (0x2cbb, 0x2cbb), (0x2cbd, 0x2cbd), (0x2cbf, 0x2cbf),
  (0x2cc1, 0x2cc1), (0x2cc3, 0x2cc3), (0x2cc5, 0x2cc5), (0x2cc7, 0x2cc7), (0x2cc9, 0x2cc9),
  (0x2ccb, 0x2ccb), (0x2ccd, 0x2ccd), (0x2ccf, 0x2ccf), (0x2cd1, 0x2cd1), (0x2cd3, 0x2cd3),
  (0x2cd5, 0x2cd5), (0x2cd7, 0x2cd7), (0x2cd9, 0x2cd9), (0x2cdb, 0x2cdb), (0x2cdd, 0x2cdd),
  (0x2cdf, 0x2cdf), (0x2ce1, 0x2ce1), (0x2ce3, 0x2ce4), (0x2cec, 0x2cec), (0x2cee, 0x2cee),
  (0x2cf3, 0x2cf3), (0x2d00, 0x2d25), (0x2d27, 0x2d27), (0x2d2d, 0x2d2d), (0xa641, 0xa641),
  (0xa643, 0xa643), (0xa645, 0xa645), (0xa647, 0xa647), (0xa649, 0xa649), (0xa64b, 0xa64b),
  (0xa64d, 0xa64d), (0xa64f, 0xa64f), (0xa651, 0xa651), (0xa653, 0xa653), (0xa655, 0xa655),
  (0xa657, 0xa657), (0xa659, 0xa659), (0xa65b, 0xa65b), (0xa65d, 0xa65d), (0xa65f, 0xa65f),
  (0xa661, 0xa661), (0xa663, 0xa663), (0xa665, 0xa665), (0xa667, 0xa667), (0xa669, 0xa669),
  (0xa66b, 0xa66b), (0xa66d, 0xa66d), (0xa681, 0xa681), (0xa683, 0xa683), (0xa685, 0xa685),
  (0xa687, 0xa687), (0xa689, 0xa689), (0xa68b, 0xa68b), (0xa68d, 0xa68d), (0xa68f, 0xa68f),
  (0xa691, 0xa691), (0xa693, 0xa693), (0xa695, 0xa695), (0xa697, 0xa697), (0xa699, 0xa699),
  (0xa69b, 0xa69d), (0xa723, 0xa723), (0xa725, 0xa725), (0xa727, 0xa727), (0xa729, 0xa729),
  (0xa72b, 0xa72b), (0xa72d, 0xa72d), (0xa72f, 0xa731), (0xa733, 0xa733), (0xa735, 0xa735),
  (0xa737, 0xa737), (0xa739, 0xa739), (0xa73b, 0xa73b), (0xa73d, 0xa73d), (0xa73f, 0xa73f),
  (0xa741, 0xa741), (0xa743, 0xa743), (0xa745, 0xa745), (0xa747, 0xa747), (0xa749, 0xa749),
  (0xa74b, 0xa74b), (0xa74d, 0xa74d), (0xa74f, 0xa74f), (0xa751, 0xa751), (0xa753, 0xa753),
  (0xa755, 0xa755), (0xa757, 0xa757), (0xa759, 0xa759), (0xa75b, 0xa75b), (0xa75d, 0xa75d),
  (0xa75f, 0xa75f), (0xa761, 0xa761), (0xa763, 0xa763), (0xa765, 0xa765), (0xa767, 0xa767),
  (0xa769, 0xa769), (0xa76b, 0xa76b), (0xa76d, 0xa76d), (0xa76f, 0xa778), (0xa77a, 0xa77a),
  (0xa77c, 0xa77c), (0xa77f, 0xa77f), (0xa781, 0xa781), (0xa783, 0xa783), (0xa785, 0xa785),
  (0xa787, 0xa787), (0xa78c, 0xa78c), (0xa78e, 0xa78e), (0xa791, 0xa791), (0xa793, 0xa795),
  (0xa797, 0xa797), (0xa799, 0xa799), (0xa79b, 0xa79b), (0xa79d, 0xa79d), (0xa79f, 0xa79f),
  (0xa7a1, 0xa7a1), (0xa7a3, 0xa7a3), (0xa7a5, 0xa7a5), (0xa7a7, 0xa7a7), (0xa7a9, 0xa7a9),
  (0xa7af, 0xa7af), (0xa7b5, 0xa7b5), (0xa7b7, 0xa7b7), (0xa7b9, 0xa7b9), (0xa7bb, 0xa7bb),
  (0xa7bd, 0xa7bd), (0xa7bf, 0xa7bf), (0xa7c1, 0xa7c1), (0xa7c3, 0xa7c3), (0xa7c8, 0xa7c8),
  (0xa7ca, 0xa7ca), (0xa7cd, 0xa7cd), (0xa7cf, 0xa7cf), (0xa7d1, 0xa7d1), (0xa7d3, 0xa7d3),
  (0xa7d5, 0xa7d5), (0xa7d7, 0xa7d7), (0xa7d9, 0xa7d9), (0xa7db, 0xa7db), (0xa7f1, 0xa7f4),
  (0xa7f6, 0xa7f6), (0xa7f8, 0xa7fa), (0xab30, 0xab5a), (0xab5c, 0xab69), (0xab70, 0xabbf),
  (0xfb00, 0xfb06), (0xfb13, 0xfb17), (0xff41, 0xff5a), (0x10428, 0x1044f), (0x104d8, 0x104fb),
  (0x10597, 0x105a1), (0x105a3, 0x105b1), (0x105b3, 0x105b9), (0x105bb, 0x105bc),
  (0x10780, 0x10780), (0x10783, 0x10785), (0x10787, 0x107b0), (0x107b2, 0x107ba),
  (0x10cc0, 0x10cf2), (0x10d70, 0x10d85), (0x118c0, 0x118df), (0x16e60, 0x16e7f),
  (0x16ebb, 0x16ed3), (0x1d41a, 0x1d433), (0x1d44e, 0x1d454), (0x1d456, 0x1d467),
  (0x1d482, 0x1d49b), (0x1d4b6, 0x1d4b9), (0x1d4bb, 0x1d4bb), (0x1d4bd, 0x1d4c3),
  (0x1d4c5, 0x1d4cf), (0x1d4ea, 0x1d503), (0x1d51e, 0x1d537), (0x1d552, 0x1d56b),
  (0x1d586, 0x1d59f), (0x1d5ba, 0x1d5d3), (0x1d5ee, 0x1d607), (0x1d622, 0x1d63b),
  (0x1d656, 0x1d66f), (0x1d68a, 0x1d6a5), (0x1d6c2, 0x1d6da), (0x1d6dc, 0x1d6e1),
  (0x1d6fc, 0x1d714), (0x1d716, 0x1d71b), (0x1d736, 0x1d74e), (0x1d750, 0x1d755),
  (0x1d770, 0x1d788), (0x1d78a, 0x1d78f), (0x1d7aa, 0x1d7c2), (0x1d7c4, 0x1d7c9),
  (0x1d7cb, 0x1d7cb), (0x1df00, 0x1df09), (0x1df0b, 0x1df1e), (0x1df25, 0x1df2a),
  (0x1e030, 0x1e06d), (0x1e922, 0x1e943)]

/-- Runs of characters with the same distance to their upper-case form: first, last, step,
distance. -/
def upperRuns : List (Nat × Nat × Nat × Int) := [
  (0x61, 0x7a, 1, -32), (0xb5, 0xb5, 1, 743), (0xe0, 0xf6, 1, -32), (0xf8, 0xfe, 1, -32),
  (0xff, 0xff, 1, 121), (0x101, 0x12f, 2, -1), (0x131, 0x131, 1, -232), (0x133, 0x137, 2, -1),
  (0x13a, 0x148, 2, -1), (0x14b, 0x177, 2, -1), (0x17a, 0x17e, 2, -1), (0x17f, 0x17f, 1, -300),
  (0x180, 0x180, 1, 195), (0x183, 0x185, 2, -1), (0x188, 0x188, 1, -1), (0x18c, 0x18c, 1, -1),
  (0x192, 0x192, 1, -1), (0x195, 0x195, 1, 97), (0x199, 0x199, 1, -1), (0x19a, 0x19a, 1, 163),
  (0x19b, 0x19b, 1, 42561), (0x19e, 0x19e, 1, 130), (0x1a1, 0x1a5, 2, -1), (0x1a8, 0x1a8, 1, -1),
  (0x1ad, 0x1ad, 1, -1), (0x1b0, 0x1b0, 1, -1), (0x1b4, 0x1b6, 2, -1), (0x1b9, 0x1b9, 1, -1),
  (0x1bd, 0x1bd, 1, -1), (0x1bf, 0x1bf, 1, 56), (0x1c5, 0x1c5, 1, -1), (0x1c6, 0x1c6, 1, -2),
  (0x1c8, 0x1c8, 1, -1), (0x1c9, 0x1c9, 1, -2), (0x1cb, 0x1cb, 1, -1), (0x1cc, 0x1cc, 1, -2),
  (0x1ce, 0x1dc, 2, -1), (0x1dd, 0x1dd, 1, -79), (0x1df, 0x1ef, 2, -1), (0x1f2, 0x1f2, 1, -1),
  (0x1f3, 0x1f3, 1, -2), (0x1f5, 0x1f5, 1, -1), (0x1f9, 0x21f, 2, -1), (0x223, 0x233, 2, -1),
  (0x23c, 0x23c, 1, -1), (0x23f, 0x240, 1, 10815), (0x242, 0x242, 1, -1), (0x247, 0x24f, 2, -1),
  (0x250, 0x250, 1, 10783), (0x251, 0x251, 1, 10780), (0x252, 0x252, 1, 10782),
  (0x253, 0x253, 1, -210), (0x254, 0x254, 1, -206), (0x256, 0x257, 1, -205),
  (0x259, 0x259, 1, -202), (0x25b, 0x25b, 1, -203), (0x25c, 0x25c, 1, 42319),
  (0x260, 0x260, 1, -205), (0x261, 0x261, 1, 42315), (0x263, 0x263, 1, -207),
  (0x264, 0x264, 1, 42343), (0x265, 0x265, 1, 42280), (0x266, 0x266, 1, 42308),
  (0x268, 0x268, 1, -209), (0x269, 0x269, 1, -211), (0x26a, 0x26a, 1, 42308),
  (0x26b, 0x26b, 1, 10743), (0x26c, 0x26c, 1, 42305), (0x26f, 0x26f, 1, -211),
  (0x271, 0x271, 1, 10749), (0x272, 0x272, 1, -213), (0x275, 0x275, 1, -214),
  (0x27d, 0x27d, 1, 10727), (0x280, 0x280, 1, -218), (0x282, 0x282, 1, 42307),
  (0x283, 0x283, 1, -218), (0x287, 0x287, 1, 42282), (0x288, 0x288, 1, -218),
  (0x289, 0x289, 1, -69), (0x28a, 0x28b, 1, -217), (0x28c, 0x28c, 1, -71), (0x292, 0x292, 1, -219),
  (0x29d, 0x29d, 1, 42261), (0x29e, 0x29e, 1, 42258), (0x345, 0x345, 1, 84), (0x371, 0x373, 2, -1),
  (0x377, 0x377, 1, -1), (0x37b, 0x37d, 1, 130), (0x3ac, 0x3ac, 1, -38), (0x3ad, 0x3af, 1, -37),
  (0x3b1, 0x3c1, 1, -32), (0x3c2, 0x3c2, 1, -31), (0x3c3, 0x3cb, 1, -32), (0x3cc, 0x3cc, 1, -64),
  (0x3cd, 0x3ce, 1, -63), (0x3d0, 0x3d0, 1, -62), (0x3d1, 0x3d1, 1, -57), (0x3d5, 0x3d5, 1, -47),
  (0x3d6, 0x3d6, 1, -54), (0x3d7, 0x3d7, 1, -8), (0x3d9, 0x3ef, 2, -1), (0x3f0, 0x3f0, 1, -86),
  (0x3f1, 0x3f1, 1, -80), (0x3f2, 0x3f2, 1, 7), (0x3f3, 0x3f3, 1, -116), (0x3f5, 0x3f5, 1, -96),
  (0x3f8, 0x3f8, 1, -1), (0x3fb, 0x3fb, 1, -1), (0x430, 0x44f, 1, -32), (0x450, 0x45f, 1, -80),
  (0x461, 0x481, 2, -1), (0x48b, 0x4bf, 2, -1), (0x4c2, 0x4ce, 2, -1), (0x4cf, 0x4cf, 1, -15),
  (0x4d1, 0x52f, 2, -1), (0x561, 0x586, 1, -48), (0x10d0, 0x10fa, 1, 3008),
  (0x10fd, 0x10ff, 1, 3008), (0x13f8, 0x13fd, 1, -8), (0x1c80, 0x1c80, 1, -6254),
  (0x1c81, 0x1c81, 1, -6253), (0x1c82, 0x1c82, 1, -6244), (0x1c83, 0x1c84, 1, -6242),
  (0x1c85, 0x1c85, 1, -6243), (0x1c86, 0x1c86, 1, -6236), (0x1c87, 0x1c87, 1, -6181),
  (0x1c88, 0x1c88, 1, 35266), (0x1c8a, 0x1c8a, 1, -1), (0x1d79, 0x1d79, 1, 35332),
  (0x1d7d, 0x1d7d, 1, 3814), (0x1d8e, 0x1d8e, 1, 35384), (0x1e01, 0x1e95, 2, -1),
  (0x1e9b, 0x1e9b, 1, -59), (0x1ea1, 0x1eff, 2, -1), (0x1f00, 0x1f07, 1, 8), (0x1f10, 0x1f15, 1, 8),
  (0x1f20, 0x1f27, 1, 8), (0x1f30, 0x1f37, 1, 8), (0x1f40, 0x1f45, 1, 8), (0x1f51, 0x1f57, 2, 8),
  (0x1f60, 0x1f67, 1, 8), (0x1f70, 0x1f71, 1, 74), (0x1f72, 0x1f75, 1, 86),
  (0x1f76, 0x1f77, 1, 100), (0x1f78, 0x1f79, 1, 128), (0x1f7a, 0x1f7b, 1, 112),
  (0x1f7c, 0x1f7d, 1, 126), (0x1fb0, 0x1fb1, 1, 8), (0x1fbe, 0x1fbe, 1, -7205),
  (0x1fd0, 0x1fd1, 1, 8), (0x1fe0, 0x1fe1, 1, 8), (0x1fe5, 0x1fe5, 1, 7), (0x214e, 0x214e, 1, -28),
  (0x2170, 0x217f, 1, -16), (0x2184, 0x2184, 1, -1), (0x24d0, 0x24e9, 1, -26),
  (0x2c30, 0x2c5f, 1, -48), (0x2c61, 0x2c61, 1, -1), (0x2c65, 0x2c65, 1, -10795),
  (0x2c66, 0x2c66, 1, -10792), (0x2c68, 0x2c6c, 2, -1), (0x2c73, 0x2c73, 1, -1),
  (0x2c76, 0x2c76, 1, -1), (0x2c81, 0x2ce3, 2, -1), (0x2cec, 0x2cee, 2, -1),
  (0x2cf3, 0x2cf3, 1, -1), (0x2d00, 0x2d25, 1, -7264), (0x2d27, 0x2d27, 1, -7264),
  (0x2d2d, 0x2d2d, 1, -7264), (0xa641, 0xa66d, 2, -1), (0xa681, 0xa69b, 2, -1),
  (0xa723, 0xa72f, 2, -1), (0xa733, 0xa76f, 2, -1), (0xa77a, 0xa77c, 2, -1),
  (0xa77f, 0xa787, 2, -1), (0xa78c, 0xa78c, 1, -1), (0xa791, 0xa793, 2, -1),
  (0xa794, 0xa794, 1, 48), (0xa797, 0xa7a9, 2, -1), (0xa7b5, 0xa7c3, 2, -1),
  (0xa7c8, 0xa7ca, 2, -1), (0xa7cd, 0xa7db, 2, -1), (0xa7f6, 0xa7f6, 1, -1),
  (0xab53, 0xab53, 1, -928), (0xab70, 0xabbf, 1, -38864), (0xff41, 0xff5a, 1, -32),
  (0x10428, 0x1044f, 1, -40), (0x104d8, 0x104fb, 1, -40), (0x10597, 0x105a1, 1, -39),
  (0x105a3, 0x105b1, 1, -39), (0x105b3, 0x105b9, 1, -39), (0x105bb, 0x105bc, 1, -39),
  (0x10cc0, 0x10cf2, 1, -64), (0x10d70, 0x10d85, 1, -32), (0x118c0, 0x118df, 1, -32),
  (0x16e60, 0x16e7f, 1, -32), (0x16ebb, 0x16ed3, 1, -27), (0x1e922, 0x1e943, 1, -34)]

/-- Characters whose upper-case form is several characters. -/
def upperExpansions : List (Nat × List Nat) := [
  (0xdf, [0x53, 0x53]), (0x149, [0x2bc, 0x4e]), (0x1f0, [0x4a, 0x30c]),
  (0x390, [0x399, 0x308, 0x301]), (0x3b0, [0x3a5, 0x308, 0x301]), (0x587, [0x535, 0x552]),
  (0x1e96, [0x48, 0x331]), (0x1e97, [0x54, 0x308]), (0x1e98, [0x57, 0x30a]),
  (0x1e99, [0x59, 0x30a]), (0x1e9a, [0x41, 0x2be]), (0x1f50, [0x3a5, 0x313]),
  (0x1f52, [0x3a5, 0x313, 0x300]), (0x1f54, [0x3a5, 0x313, 0x301]), (0x1f56, [0x3a5, 0x313, 0x342]),
  (0x1f80, [0x1f08, 0x399]), (0x1f81, [0x1f09, 0x399]), (0x1f82, [0x1f0a, 0x399]),
  (0x1f83, [0x1f0b, 0x399]), (0x1f84, [0x1f0c, 0x399]), (0x1f85, [0x1f0d, 0x399]),
  (0x1f86, [0x1f0e, 0x399]), (0x1f87, [0x1f0f, 0x399]), (0x1f88, [0x1f08, 0x399]),
  (0x1f89, [0x1f09, 0x399]), (0x1f8a, [0x1f0a, 0x399]), (0x1f8b, [0x1f0b, 0x399]),
  (0x1f8c, [0x1f0c, 0x399]), (0x1f8d, [0x1f0d, 0x399]), (0x1f8e, [0x1f0e, 0x399]),
  (0x1f8f, [0x1f0f, 0x399]), (0x1f90, [0x1f28, 0x399]), (0x1f91, [0x1f29, 0x399]),
  (0x1f92, [0x1f2a, 0x399]), (0x1f93, [0x1f2b, 0x399]), (0x1f94, [0x1f2c, 0x399]),
  (0x1f95, [0x1f2d, 0x399]), (0x1f96, [0x1f2e, 0x399]), (0x1f97, [0x1f2f, 0x399]),
  (0x1f98, [0x1f28, 0x399]), (0x1f99, [0x1f29, 0x399]), (0x1f9a, [0x1f2a, 0x399]),
  (0x1f9b, [0x1f2b, 0x399]), (0x1f9c, [0x1f2c, 0x399]), (0x1f9d, [0x1f2d, 0x399]),
  (0x1f9e, [0x1f2e, 0x399]), (0x1f9f, [0x1f2f, 0x399]), (0x1fa0, [0x1f68, 0x399]),
  (0x1fa1, [0x1f69, 0x399]), (0x1fa2, [0x1f6a, 0x399]), (0x1fa3, [0x1f6b, 0x399]),
  (0x1fa4, [0x1f6c, 0x399]), (0x1fa5, [0x1f6d, 0x399]), (0x1fa6, [0x1f6e, 0x399]),
  (0x1fa7, [0x1f6f, 0x399]), (0x1fa8, [0x1f68, 0x399]), (0x1fa9, [0x1f69, 0x399]),
  (0x1faa, [0x1f6a, 0x399]), (0x1fab, [0x1f6b, 0x399]), (0x1fac, [0x1f6c, 0x399]),
  (0x1fad, [0x1f6d, 0x399]), (0x1fae, [0x1f6e, 0x399]), (0x1faf, [0x1f6f, 0x399]),
  (0x1fb2, [0x1fba, 0x399]), (0x1fb3, [0x391, 0x399]), (0x1fb4, [0x386, 0x399]),
  (0x1fb6, [0x391, 0x342]), (0x1fb7, [0x391, 0x342, 0x399]), (0x1fbc, [0x391, 0x399]),
  (0x1fc2, [0x1fca, 0x399]), (0x1fc3, [0x397, 0x399]), (0x1fc4, [0x389, 0x399]),
  (0x1fc6, [0x397, 0x342]), (0x1fc7, [0x397, 0x342, 0x399]), (0x1fcc, [0x397, 0x399]),
  (0x1fd2, [0x399, 0x308, 0x300]), (0x1fd3, [0x399, 0x308, 0x301]), (0x1fd6, [0x399, 0x342]),
  (0x1fd7, [0x399, 0x308, 0x342]), (0x1fe2, [0x3a5, 0x308, 0x300]), (0x1fe3, [0x3a5, 0x308, 0x301]),
  (0x1fe4, [0x3a1, 0x313]), (0x1fe6, [0x3a5, 0x342]), (0x1fe7, [0x3a5, 0x308, 0x342]),
  (0x1ff2, [0x1ffa, 0x399]), (0x1ff3, [0x3a9, 0x399]), (0x1ff4, [0x38f, 0x399]),
  (0x1ff6, [0x3a9, 0x342]), (0x1ff7, [0x3a9, 0x342, 0x399]), (0x1ffc, [0x3a9, 0x399]),
  (0xfb00, [0x46, 0x46]), (0xfb01, [0x46, 0x49]), (0xfb02, [0x46, 0x4c]),
  (0xfb03, [0x46, 0x46, 0x49]), (0xfb04, [0x46, 0x46, 0x4c]), (0xfb05, [0x53, 0x54]),
  (0xfb06, [0x53, 0x54]), (0xfb13, [0x544, 0x546]), (0xfb14, [0x544, 0x535]),
  (0xfb15, [0x544, 0x53b]), (0xfb16, [0x54e, 0x546]), (0xfb17, [0x544, 0x53d])]

/-- Runs of characters with the same distance to their lower-case form: first, last, step,
distance. -/
def lowerRuns : List (Nat × Nat × Nat × Int) := [
  (0x41, 0x5a, 1, 32), (0xc0, 0xd6, 1, 32), (0xd8, 0xde, 1, 32), (0x100, 0x12e, 2, 1),
  (0x132, 0x136, 2, 1), (0x139, 0x147, 2, 1), (0x14a, 0x176, 2, 1), (0x178, 0x178, 1, -121),
  (0x179, 0x17d, 2, 1), (0x181, 0x181, 1, 210), (0x182, 0x184, 2, 1), (0x186, 0x186, 1, 206),
  (0x187, 0x187, 1, 1), (0x189, 0x18a, 1, 205), (0x18b, 0x18b, 1, 1), (0x18e, 0x18e, 1, 79),
  (0x18f, 0x18f, 1, 202), (0x190, 0x190, 1, 203), (0x191, 0x191, 1, 1), (0x193, 0x193, 1, 205),
  (0x194, 0x194, 1, 207), (0x196, 0x196, 1, 211), (0x197, 0x197, 1, 209), (0x198, 0x198, 1, 1),
  (0x19c, 0x19c, 1, 211), (0x19d, 0x19d, 1, 213), (0x19f, 0x19f, 1, 214), (0x1a0, 0x1a4, 2, 1),
  (0x1a6, 0x1a6, 1, 218), (0x1a7, 0x1a7, 1, 1), (0x1a9, 0x1a9, 1, 218), (0x1ac, 0x1ac, 1, 1),
  (0x1ae, 0x1ae, 1, 218), (0x1af, 0x1af, 1, 1), (0x1b1, 0x1b2, 1, 217), (0x1b3, 0x1b5, 2, 1),
  (0x1b7, 0x1b7, 1, 219), (0x1b8, 0x1b8, 1, 1), (0x1bc, 0x1bc, 1, 1), (0x1c4, 0x1c4, 1, 2),
  (0x1c5, 0x1c5, 1, 1), (0x1c7, 0x1c7, 1, 2), (0x1c8, 0x1c8, 1, 1), (0x1ca, 0x1ca, 1, 2),
  (0x1cb, 0x1db, 2, 1), (0x1de, 0x1ee, 2, 1), (0x1f1, 0x1f1, 1, 2), (0x1f2, 0x1f4, 2, 1),
  (0x1f6, 0x1f6, 1, -97), (0x1f7, 0x1f7, 1, -56), (0x1f8, 0x21e, 2, 1), (0x220, 0x220, 1, -130),
  (0x222, 0x232, 2, 1), (0x23a, 0x23a, 1, 10795), (0x23b, 0x23b, 1, 1), (0x23d, 0x23d, 1, -163),
  (0x23e, 0x23e, 1, 10792), (0x241, 0x241, 1, 1), (0x243, 0x243, 1, -195), (0x244, 0x244, 1, 69),
  (0x245, 0x245, 1, 71), (0x246, 0x24e, 2, 1), (0x370, 0x372, 2, 1), (0x376, 0x376, 1, 1),
  (0x37f, 0x37f, 1, 116), (0x386, 0x386, 1, 38), (0x388, 0x38a, 1, 37), (0x38c, 0x38c, 1, 64),
  (0x38e, 0x38f, 1, 63), (0x391, 0x3a1, 1, 32), (0x3a3, 0x3ab, 1, 32), (0x3cf, 0x3cf, 1, 8),
  (0x3d8, 0x3ee, 2, 1), (0x3f4, 0x3f4, 1, -60), (0x3f7, 0x3f7, 1, 1), (0x3f9, 0x3f9, 1, -7),
  (0x3fa, 0x3fa, 1, 1), (0x3fd, 0x3ff, 1, -130), (0x400, 0x40f, 1, 80), (0x410, 0x42f, 1, 32),
  (0x460, 0x480, 2, 1), (0x48a, 0x4be, 2, 1), (0x4c0, 0x4c0, 1, 15), (0x4c1, 0x4cd, 2, 1),
  (0x4d0, 0x52e, 2, 1), (0x531, 0x556, 1, 48), (0x10a0, 0x10c5, 1, 7264), (0x10c7, 0x10c7, 1, 7264),
  (0x10cd, 0x10cd, 1, 7264), (0x13a0, 0x13ef, 1, 38864), (0x13f0, 0x13f5, 1, 8),
  (0x1c89, 0x1c89, 1, 1), (0x1c90, 0x1cba, 1, -3008), (0x1cbd, 0x1cbf, 1, -3008),
  (0x1e00, 0x1e94, 2, 1), (0x1e9e, 0x1e9e, 1, -7615), (0x1ea0, 0x1efe, 2, 1),
  (0x1f08, 0x1f0f, 1, -8), (0x1f18, 0x1f1d, 1, -8), (0x1f28, 0x1f2f, 1, -8),
  (0x1f38, 0x1f3f, 1, -8), (0x1f48, 0x1f4d, 1, -8), (0x1f59, 0x1f5f, 2, -8),
  (0x1f68, 0x1f6f, 1, -8), (0x1f88, 0x1f8f, 1, -8), (0x1f98, 0x1f9f, 1, -8),
  (0x1fa8, 0x1faf, 1, -8), (0x1fb8, 0x1fb9, 1, -8), (0x1fba, 0x1fbb, 1, -74),
  (0x1fbc, 0x1fbc, 1, -9), (0x1fc8, 0x1fcb, 1, -86), (0x1fcc, 0x1fcc, 1, -9),
  (0x1fd8, 0x1fd9, 1, -8), (0x1fda, 0x1fdb, 1, -100), (0x1fe8, 0x1fe9, 1, -8),
  (0x1fea, 0x1feb, 1, -112), (0x1fec, 0x1fec, 1, -7), (0x1ff8, 0x1ff9, 1, -128),
  (0x1ffa, 0x1ffb, 1, -126), (0x1ffc, 0x1ffc, 1, -9), (0x2126, 0x2126, 1, -7517),
  (0x212a, 0x212a, 1, -8383), (0x212b, 0x212b, 1, -8262), (0x2132, 0x2132, 1, 28),
  (0x2160, 0x216f, 1, 16), (0x2183, 0x2183, 1, 1), (0x24b6, 0x24cf, 1, 26), (0x2c00, 0x2c2f, 1, 48),
  (0x2c60, 0x2c60, 1, 1), (0x2c62, 0x2c62, 1, -10743), (0x2c63, 0x2c63, 1, -3814),
  (0x2c64, 0x2c64, 1, -10727), (0x2c67, 0x2c6b, 2, 1), (0x2c6d, 0x2c6d, 1, -10780),
  (0x2c6e, 0x2c6e, 1, -10749), (0x2c6f, 0x2c6f, 1, -10783), (0x2c70, 0x2c70, 1, -10782),
  (0x2c72, 0x2c72, 1, 1), (0x2c75, 0x2c75, 1, 1), (0x2c7e, 0x2c7f, 1, -10815),
  (0x2c80, 0x2ce2, 2, 1), (0x2ceb, 0x2ced, 2, 1), (0x2cf2, 0x2cf2, 1, 1), (0xa640, 0xa66c, 2, 1),
  (0xa680, 0xa69a, 2, 1), (0xa722, 0xa72e, 2, 1), (0xa732, 0xa76e, 2, 1), (0xa779, 0xa77b, 2, 1),
  (0xa77d, 0xa77d, 1, -35332), (0xa77e, 0xa786, 2, 1), (0xa78b, 0xa78b, 1, 1),
  (0xa78d, 0xa78d, 1, -42280), (0xa790, 0xa792, 2, 1), (0xa796, 0xa7a8, 2, 1),
  (0xa7aa, 0xa7aa, 1, -42308), (0xa7ab, 0xa7ab, 1, -42319), (0xa7ac, 0xa7ac, 1, -42315),
  (0xa7ad, 0xa7ad, 1, -42305), (0xa7ae, 0xa7ae, 1, -42308), (0xa7b0, 0xa7b0, 1, -42258),
  (0xa7b1, 0xa7b1, 1, -42282), (0xa7b2, 0xa7b2, 1, -42261), (0xa7b3, 0xa7b3, 1, 928),
  (0xa7b4, 0xa7c2, 2, 1), (0xa7c4, 0xa7c4, 1, -48), (0xa7c5, 0xa7c5, 1, -42307),
  (0xa7c6, 0xa7c6, 1, -35384), (0xa7c7, 0xa7c9, 2, 1), (0xa7cb, 0xa7cb, 1, -42343),
  (0xa7cc, 0xa7da, 2, 1), (0xa7dc, 0xa7dc, 1, -42561), (0xa7f5, 0xa7f5, 1, 1),
  (0xff21, 0xff3a, 1, 32), (0x10400, 0x10427, 1, 40), (0x104b0, 0x104d3, 1, 40),
  (0x10570, 0x1057a, 1, 39), (0x1057c, 0x1058a, 1, 39), (0x1058c, 0x10592, 1, 39),
  (0x10594, 0x10595, 1, 39), (0x10c80, 0x10cb2, 1, 64), (0x10d50, 0x10d65, 1, 32),
  (0x118a0, 0x118bf, 1, 32), (0x16e40, 0x16e5f, 1, 32), (0x16ea0, 0x16eb8, 1, 27),
  (0x1e900, 0x1e921, 1, 34)]

/-- Characters whose lower-case form is several characters. -/
def lowerExpansions : List (Nat × List Nat) := [
  (0x130, [0x69, 0x307])]

def isUppercase (c : Char) : Bool := inRanges uppercaseRanges c.toNat

def isLowercase (c : Char) : Bool := inRanges lowercaseRanges c.toNat

/-- The characters that a table sends a character to: the character itself where it is in none. -/
def mapCase (runs : List (Nat × Nat × Nat × Int)) (expansions : List (Nat × List Nat))
    (c : Char) : List Char :=
  let n := c.toNat
  match expansions.find? (·.1 = n) with
  | some (_, ms) => ms.map Char.ofNat
  | none =>
    match runs.find? fun (first, last, step, _) =>
        first ≤ n && n ≤ last && (n - first) % step = 0 with
    | some (_, _, _, distance) => [Char.ofNat (n + distance).toNat]
    | none => [c]

def toUpper (c : Char) : List Char := mapCase upperRuns upperExpansions c

def toLower (c : Char) : List Char := mapCase lowerRuns lowerExpansions c

end DescriptorKit.Text
